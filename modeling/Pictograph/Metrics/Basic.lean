import Pictograph.Decimal.Reading
import Pictograph.Metrics.Counter
import Pictograph.Value.Display

/-!
Metrics of the library: how runs of the compiler ended and how long they took, and what became of
the matches of the decorator. Counting never fails; what cannot be counted is left out.
-/

namespace Pictograph

structure Timings where
  count : Nat
  sum : Float

structure Metrics where
  enabled : Bool
  compiles : Counter
  seconds : Timings
  matched : Counter

namespace Metrics

def start : Metrics := ⟨true, [], ⟨0, 0.0⟩, []⟩

/-- The label of an outcome; an empty object has none, and nor has what cannot be written. -/
def label? : Value → Option Text
  | .object [] => none
  | v => (v.write Value.display).toOption

/-- A time, with zero for a negative one and for what is not a number. -/
def duration (x : Float) : Float := if 0.0 < x then x else 0.0

/-- Counts a run of the compiler, and its time if that is a number. -/
def recordCompile (m : Metrics) (outcome seconds : Value) : Metrics :=
  match m.enabled, label? outcome with
  | true, some label =>
    let counted := { m with compiles := m.compiles.bump label }
    match seconds.toFloat? with
    | some x => { counted with seconds := ⟨m.seconds.count + 1, m.seconds.sum + duration x⟩ }
    | none => counted
  | _, _ => m

def recordMatch (m : Metrics) (outcome : Value) : Metrics :=
  match m.enabled, label? outcome with
  | true, some label => { m with matched := m.matched.bump label }
  | _, _ => m

theorem recordCompile_disabled {m : Metrics} (h : m.enabled = false) (outcome seconds : Value) :
    m.recordCompile outcome seconds = m := by
  simp [recordCompile, h]

theorem recordMatch_disabled {m : Metrics} (h : m.enabled = false) (outcome : Value) :
    m.recordMatch outcome = m := by
  simp [recordMatch, h]

end Metrics

end Pictograph
