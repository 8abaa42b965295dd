import Pictograph.Compile.Master
import Pictograph.Log.Event
import Pictograph.Pattern.Reader

/-!
Compiling an emoji table. A run either gives a pattern or names the entry or the class that is to
blame; it tells the log what it left out and how it ended, and counts its outcome.
-/

namespace Pictograph

structure CompilerSettings where
  flavor : Flavor
  /-- Must every class have a sequence? -/
  requireAll : Bool
  deriving DecidableEq, Repr

inductive Outcome where
  | ok
  | error
  deriving DecidableEq, Repr

def Outcome.name : Outcome → Text
  | ok => codes "ok"
  | error => codes "error"

namespace Compile

def classifier : Log.Source :=
  ⟨codes "emojiparse.compiler.classifier", [(codes "component", .text (codes "classifier"))]⟩

def compiler : Log.Source :=
  ⟨codes "emojiparse.compiler.pattern", [(codes "component", .text (codes "compiler"))]⟩

/-- Steps that may fail and that write to the log until then. -/
abbrev Logged := ExceptT Fault (StateM (List Log.Event))

def Logged.log (e : Log.Event) : Logged Unit := modify (· ++ [e])

def classified (items : List TableItem) : Logged (List Placed) := do
  let entries ← liftExcept (tableEntries items)
  let placed ← liftExcept (classify entries)
  Logged.log (classifier.event Log.Level.debug (codes "emoji table classified") []
    [(codes "records", .value (.int entries.length)),
      (codes "counts",
        .value (.object ((classCounts placed).map fun p => (p.1.name, .int p.2))))])
  return placed
where
  liftExcept {α : Type} (r : Except Fault α) : Logged α := ExceptT.mk (pure r)

/-- The pattern of a class; a class without sequences is an error or left out. -/
def classPattern (settings : CompilerSettings) (placed : List Placed) (c : Class) :
    Logged (Option (Class × Pattern)) :=
  match sequencesOf placed c with
  | [] =>
    if settings.requireAll then throw (.table (.emptyCategory c.name))
    else do
      Logged.log (compiler.event Log.Level.warning (codes "emoji category empty; omitted") []
        [(codes "category", .text c.name)])
      return none
  | sequences =>
    match patternOf settings.flavor c.name (sequences.map (·.numbers)) with
    | .ok p => return some (c, p)
    | .error f => throw f

def pattern (settings : CompilerSettings) (items : List TableItem) : Logged CompiledPattern := do
  let placed ← classified items
  let patterns := (← Class.all.mapM (classPattern settings placed)).filterMap id
  match Auxiliary.of settings.flavor with
  | .ok a =>
    return {
      pattern := Pattern.master a patterns
      flavor := settings.flavor
      fragments := patterns.map (fun p => (p.1.name, p.2)) ++ a.fragments }
  | .error f => throw f

end Compile

structure Compilation where
  result : Except Fault CompiledPattern
  events : List Log.Event
  counted : Option Outcome

/-- Compiles a table. Only a fault of the table is counted and logged as an error. -/
def compile (settings : CompilerSettings) (items : List TableItem) : Compilation :=
  match (Compile.pattern settings items).run [] with
  | (.ok c, events) =>
    ⟨.ok c,
      events ++ [Compile.compiler.event Log.Level.info (codes "emoji pattern compiled") []
        [(codes "flavor", .text settings.flavor.name),
          (codes "pattern_chars", .value (.int c.source.length))]],
      some .ok⟩
  | (.error (.table f), events) =>
    ⟨.error (.table f),
      events ++ [Compile.compiler.event Log.Level.error (codes "emoji pattern compilation failed")
        [] [(codes "error", .text f.kind), (codes "key", .text f.key)]],
      some .error⟩
  | (.error f, events) => ⟨.error f, events, none⟩

namespace CompiledPattern

/-- The pattern that runs: the source read back, in the one flavor that can be run. -/
def executable (c : CompiledPattern) : Except Fault Pattern :=
  if c.flavor = .points then
    match Pattern.read c.source with
    | some p => .ok p
    | none => .error .unreadablePattern
  else .error (.notExecutable c.flavor.name)

end CompiledPattern

end Pictograph
