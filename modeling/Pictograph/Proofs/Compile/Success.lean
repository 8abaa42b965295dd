import Pictograph.Compile.Basic
import Pictograph.Proofs.Fragment

/-!
When a table compiles. What is written to the log has no influence on the pattern: a table compiles
exactly if its entries can be read and sorted into classes, no sequence that is left of an entry is
empty and, where all classes are required, none is missing.
-/

namespace Pictograph

theorem tableEntries_map_entry (entries : List Entry) :
    tableEntries (entries.map .entry) = .ok entries := by
  have each : (entries.map TableItem.entry).mapM TableItem.entries =
      .ok (entries.map fun e => [e]) := by
    rw [List.mapM_map]
    exact Traversal.mapM_eq_ok fun e _ => rfl
  unfold tableEntries
  rw [each]
  exact congrArg Except.ok (List.flatMap_singleton' entries)

namespace Compile

/-- The step gives the value, whatever is in the log. -/
def Yields {α : Type} (x : Logged α) (v : Except Fault α) : Prop :=
  ∀ events, (x.run events).1 = v

variable {α β : Type}

theorem yields_pure (a : α) : Yields (pure a) (.ok a) := fun _ => rfl

theorem yields_throw (f : Fault) : Yields (throw f : Logged α) (.error f) := fun _ => rfl

theorem yields_log (e : Log.Event) : Yields (Logged.log e) (.ok ()) := fun _ => rfl

theorem yields_lift (r : Except Fault α) : Yields (classified.liftExcept r) r := fun _ => rfl

theorem Yields.bind {x : Logged α} {v : Except Fault α} {f : α → Logged β} {g : α → Except Fault β}
    (hx : Yields x v) (hf : ∀ a, Yields (f a) (g a)) : Yields (x >>= f) (v >>= g) := by
  intro events
  have first : (x events).1 = v := hx events
  have step : (x >>= f).run events = ExceptT.bindCont f (x events).1 (x events).2 := rfl
  rw [step, first]
  cases v with
  | error e => rfl
  | ok a => exact hf a _

theorem Yields.mapM {f : α → Logged β} {g : α → Except Fault β} (h : ∀ a, Yields (f a) (g a))
    (l : List α) : Yields (l.mapM f) (l.mapM g) := by
  induction l with
  | nil => exact yields_pure []
  | cons a l ih =>
    rw [List.mapM_cons, List.mapM_cons]
    exact (h a).bind fun b => ih.bind fun rest => yields_pure (b :: rest)

def body (flavor : Flavor) (placed : List Placed) (c : Class) : Option Pattern :=
  match sequencesOf placed c with
  | [] => none
  | sequences => (patternOf flavor c.name (sequences.map (·.numbers))).toOption

def classResult (settings : CompilerSettings) (placed : List Placed) (c : Class) :
    Except Fault (Option (Class × Pattern)) :=
  match sequencesOf placed c with
  | [] => if settings.requireAll then .error (.table (.emptyCategory c.name)) else .ok none
  | sequences =>
    (patternOf settings.flavor c.name (sequences.map (·.numbers))).map fun p => some (c, p)

theorem yields_classPattern (settings : CompilerSettings) (placed : List Placed) (c : Class) :
    Yields (classPattern settings placed c) (classResult settings placed c) := by
  unfold classPattern classResult
  cases sequencesOf placed c with
  | nil =>
    dsimp only
    split
    · exact yields_throw _
    · exact (yields_log _).bind (g := fun _ => .ok none) fun _ => yields_pure none
  | cons s rest =>
    dsimp only
    cases patternOf settings.flavor c.name ((s :: rest).map (·.numbers)) with
    | ok p => exact yields_pure _
    | error f => exact yields_throw f

def alternative (flavor : Flavor) (placed : List Placed) (a : Auxiliary) (c : Class) :
    Option Pattern :=
  (body flavor placed c).map fun b => .concat (Pattern.around a c b)

def assembled (flavor : Flavor) (placed : List Placed) (a : Auxiliary) : CompiledPattern where
  pattern := .group (.anyOf (Class.all.filterMap (alternative flavor placed a)))
  flavor := flavor
  fragments := (Class.all.filterMap fun c => (body flavor placed c).map fun b => (c.name, b)) ++
    a.fragments

def tableResult (settings : CompilerSettings) (items : List TableItem) :
    Except Fault CompiledPattern := do
  let entries ← tableEntries items
  let placed ← classify entries
  let patterns := (← Class.all.mapM (classResult settings placed)).filterMap id
  let a ← Auxiliary.of settings.flavor
  return {
    pattern := Pattern.master a patterns
    flavor := settings.flavor
    fragments := patterns.map (fun p => (p.1.name, p.2)) ++ a.fragments }

theorem yields_pattern (settings : CompilerSettings) (items : List TableItem) :
    Yields (pattern settings items) (tableResult settings items) := by
  have sorted : Yields (classified items) (tableEntries items >>= classify) := by
    unfold classified
    refine (yields_lift _).bind fun entries => ?_
    refine (congrArg (Yields _) (bind_pure (classify entries))).mp ?_
    refine (yields_lift _).bind fun placed => ?_
    exact (yields_log _).bind (g := fun _ => .ok placed) fun _ => yields_pure placed
  have split : tableResult settings items = (tableEntries items >>= classify) >>= fun placed =>
      Class.all.mapM (classResult settings placed) >>= fun patterns =>
        Auxiliary.of settings.flavor >>= fun a => .ok {
          pattern := Pattern.master a (patterns.filterMap id)
          flavor := settings.flavor
          fragments := (patterns.filterMap id).map (fun p => (p.1.name, p.2)) ++ a.fragments } := by
    rw [bind_assoc]
    rfl
  rw [split]
  refine sorted.bind fun placed => (Yields.mapM (yields_classPattern settings placed) _).bind ?_
  intro patterns
  split
  · next a ok =>
    rw [ok]
    exact yields_pure _
  · next f error =>
    rw [error]
    exact yields_throw f

theorem result_compile (settings : CompilerSettings) (items : List TableItem) :
    (compile settings items).result = tableResult settings items := by
  have result := yields_pattern settings items []
  unfold compile
  split
  · next run => rw [← result, run]
  · next run => rw [← result, run]
  · next run => rw [← result, run]

theorem body_isSome (flavor : Flavor) {placed : List Placed} {c : Class}
    (h : sequencesOf placed c ≠ []) (full : ∀ s ∈ sequencesOf placed c, s.points ≠ []) :
    (body flavor placed c).isSome = true := by
  obtain ⟨b, ok, -⟩ := patternOf_numbers flavor c.name h full
  unfold body
  split
  · next empty => exact absurd empty h
  · rw [ok]
    rfl

theorem fragment_body {flavor : Flavor} {placed : List Placed} {c : Class} {b : Pattern}
    (h : body flavor placed c = some b) :
    sequencesOf placed c ≠ [] ∧ Fragment flavor (encodings flavor (sequencesOf placed c)) b := by
  unfold body at h
  split at h
  · cases h
  · next ne =>
    have filled : sequencesOf placed c ≠ [] := fun empty => ne empty
    cases ok : patternOf flavor c.name ((sequencesOf placed c).map (·.numbers)) with
    | error f =>
      rw [ok] at h
      cases h
    | ok p =>
      have full := (points_ne_nil_of_patternOf ok).2
      obtain ⟨p', ok', fragment⟩ := patternOf_numbers flavor c.name filled full
      rw [ok] at h ok'
      cases ok'
      cases h
      exact ⟨filled, fragment⟩

theorem classResult_of_ne_nil {settings : CompilerSettings} {placed : List Placed} {c : Class}
    (ne : sequencesOf placed c ≠ []) : classResult settings placed c =
      (patternOf settings.flavor c.name ((sequencesOf placed c).map (·.numbers))).map
        fun p => some (c, p) := by
  unfold classResult
  split
  · next empty => exact absurd empty ne
  · rfl

theorem classResult_eq_ok_iff {settings : CompilerSettings} {placed : List Placed} {c : Class}
    {r : Option (Class × Pattern)} :
    classResult settings placed c = .ok r ↔
      (sequencesOf placed c = [] → settings.requireAll = false) ∧
      (∀ s ∈ sequencesOf placed c, s.points ≠ []) ∧
      r = (body settings.flavor placed c).map fun b => (c, b) := by
  by_cases empty : sequencesOf placed c = []
  · unfold classResult body
    rw [empty]
    cases settings.requireAll <;> simp [eq_comm]
  · constructor
    · intro h
      rw [classResult_of_ne_nil empty] at h
      cases e : patternOf settings.flavor c.name ((sequencesOf placed c).map (·.numbers)) with
      | error f =>
        rw [e] at h
        cases h
      | ok p =>
        have full := (points_ne_nil_of_patternOf e).2
        rw [e] at h
        cases h
        refine ⟨fun none => absurd none empty, full, ?_⟩
        unfold body
        split
        · next none => exact absurd none empty
        · rw [e]
          rfl
    · rintro ⟨-, full, rfl⟩
      obtain ⟨p, ok, -⟩ := patternOf_numbers settings.flavor c.name empty full
      unfold classResult body
      split
      · next none => exact absurd none empty
      · rw [ok]
        rfl

theorem points_ne_nil_iff {placed : List Placed} :
    (∀ c, ∀ s ∈ sequencesOf placed c, s.points ≠ []) ↔ ∀ p ∈ placed, p.sequence.points ≠ [] := by
  constructor
  · intro h p hp
    exact h p.cls p.sequence (List.mem_filterMap.2 ⟨p, hp, by simp⟩)
  · intro h c s hs
    obtain ⟨p, hp, e⟩ := List.mem_filterMap.1 hs
    split at e
    · cases e
      exact h p hp
    · cases e

theorem mapM_classResult_eq_ok_iff {settings : CompilerSettings} {placed : List Placed}
    {results : List (Option (Class × Pattern))} :
    Class.all.mapM (classResult settings placed) = .ok results ↔
      (settings.requireAll = true → ∀ c, sequencesOf placed c ≠ []) ∧
      (∀ p ∈ placed, p.sequence.points ≠ []) ∧
      results = Class.all.map fun c => (body settings.flavor placed c).map fun b => (c, b) := by
  rw [← points_ne_nil_iff]
  constructor
  · intro h
    have each : ∀ c, ∃ r, classResult settings placed c = .ok r := by
      intro c
      obtain ⟨r, -, ok⟩ := Traversal.ok_of_mapM_eq_ok h (Class.mem_all c)
      exact ⟨r, ok⟩
    have all := Traversal.mapM_eq_ok (f := classResult settings placed) (l := Class.all)
      (g := fun c => (body settings.flavor placed c).map fun b => (c, b)) (by
        intro c _
        obtain ⟨r, ok⟩ := each c
        rw [ok, (classResult_eq_ok_iff.1 ok).2.2])
    refine ⟨?_, ?_, ?_⟩
    · intro required c empty
      obtain ⟨r, ok⟩ := each c
      rw [(classResult_eq_ok_iff.1 ok).1 empty] at required
      cases required
    · intro c
      obtain ⟨r, ok⟩ := each c
      exact (classResult_eq_ok_iff.1 ok).2.1
    · rw [h] at all
      exact Except.ok.inj all
  · intro h
    obtain ⟨required, full, rfl⟩ := h
    apply Traversal.mapM_eq_ok
    intro c _
    refine classResult_eq_ok_iff.2 ⟨?_, full c, rfl⟩
    intro empty
    by_contra all
    exact required (by simpa using all) c empty

theorem lookup_filterMap {α β κ : Type} [BEq α] [LawfulBEq α] [BEq κ] [LawfulBEq κ] {key : α → κ}
    (distinct : Function.Injective key) (f : α → Option β) (l : List α) (a : α) :
    (l.filterMap fun x => (f x).map fun y => (key x, y)).lookup (key a) =
      if a ∈ l then f a else none := by
  induction l with
  | nil => rfl
  | cons x l ih =>
    by_cases same : a = x
    · subst same
      cases e : f a with
      | none => simp [e, ih]
      | some y => simp [e]
    · have other : (key a == key x) = false := beq_false_of_ne (distinct.ne same)
      cases e : f x with
      | none => simp [e, ih, same]
      | some y => simp [e, ih, same, List.lookup_cons, other]

def bodies (flavor : Flavor) (placed : List Placed) : ClassPatterns :=
  Class.all.filterMap fun c => (body flavor placed c).map fun b => (c, b)

theorem lookup_bodies (flavor : Flavor) (placed : List Placed) (c : Class) :
    (bodies flavor placed).lookup c = body flavor placed c :=
  (lookup_filterMap Function.injective_id _ _ c).trans (if_pos (Class.mem_all c))

theorem assembled_eq (flavor : Flavor) (placed : List Placed) (a : Auxiliary) :
    assembled flavor placed a = {
      pattern := Pattern.master a (bodies flavor placed)
      flavor := flavor
      fragments := (bodies flavor placed).map (fun p => (p.1.name, p.2)) ++ a.fragments } := by
  have names : (bodies flavor placed).map (fun p => (p.1.name, p.2)) =
      Class.all.filterMap fun c => (body flavor placed c).map fun b => (c.name, b) := by
    rw [bodies, List.map_filterMap]
    simp only [Option.map_map, Function.comp_def]
  unfold assembled alternative Pattern.master
  rw [names]
  simp only [lookup_bodies]

theorem compile_eq_ok_iff {settings : CompilerSettings} {items : List TableItem}
    {c : CompiledPattern} :
    (compile settings items).result = .ok c ↔
      ∃ entries placed a, tableEntries items = .ok entries ∧ classify entries = .ok placed ∧
        Auxiliary.of settings.flavor = .ok a ∧
        (settings.requireAll = true → ∀ c, sequencesOf placed c ≠ []) ∧
        (∀ p ∈ placed, p.sequence.points ≠ []) ∧ c = assembled settings.flavor placed a := by
  have patterns : ∀ placed, (Class.all.map fun c =>
      (body settings.flavor placed c).map fun b => (c, b)).filterMap id =
        bodies settings.flavor placed := by
    intro placed
    rw [List.filterMap_map]
    rfl
  rw [result_compile, tableResult]
  constructor
  · intro h
    obtain ⟨entries, entriesOk, h⟩ := Traversal.bind_eq_ok.1 h
    obtain ⟨placed, placedOk, h⟩ := Traversal.bind_eq_ok.1 h
    obtain ⟨results, resultsOk, h⟩ := Traversal.bind_eq_ok.1 h
    obtain ⟨a, auxiliaryOk, h⟩ := Traversal.bind_eq_ok.1 h
    obtain ⟨required, full, rfl⟩ := mapM_classResult_eq_ok_iff.1 resultsOk
    refine ⟨entries, placed, a, entriesOk, placedOk, auxiliaryOk, required, full, ?_⟩
    rw [assembled_eq, ← patterns]
    exact (Except.ok.inj h).symm
  · intro h
    obtain ⟨entries, placed, a, entriesOk, placedOk, auxiliaryOk, required, full, rfl⟩ := h
    have resultsOk := mapM_classResult_eq_ok_iff.2 ⟨required, full, rfl⟩
    rw [assembled_eq, ← patterns]
    refine Traversal.bind_eq_ok.2 ⟨entries, entriesOk, ?_⟩
    refine Traversal.bind_eq_ok.2 ⟨placed, placedOk, ?_⟩
    refine Traversal.bind_eq_ok.2 ⟨_, resultsOk, ?_⟩
    exact Traversal.bind_eq_ok.2 ⟨a, auxiliaryOk, rfl⟩

end Compile
end Pictograph
