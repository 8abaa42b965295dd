import Pictograph.Text.Unwritable
import Pictograph.Value.Basic

/-!
The registry of collectors. A collector owns the names of all its series; asking for one of them
gives the collector, and asking for a free one makes a new collector. Collectors are numbered in the
order in which they are first asked for.
-/

namespace Pictograph

inductive CollectorKind where
  | counter
  | histogram
  deriving DecidableEq, Repr

namespace CollectorKind

def stem (kind : CollectorKind) (name : Text) : Text :=
  match kind with
  | counter =>
    if (codes "_total").isSuffixOf name then name.take (name.length - 6) else name
  | histogram => name

def endings : CollectorKind → List Text
  | counter => ["", "_total", "_created"].map codes
  | histogram => ["", "_bucket", "_sum", "_count", "_created"].map codes

def seriesNames (kind : CollectorKind) (stem : Text) : List Text := kind.endings.map (stem ++ ·)

end CollectorKind

structure Registry where
  owners : List (Text × Nat)
  size : Nat
  /-- The collectors that somebody asked for, the first one first. -/
  known : List Nat

inductive RegistryFault where
  | noName
  | noStem
  | unwritable (run : Text.Unwritable)
  /-- Names of the new collector that others own. -/
  | taken (names : List Text)
  | notText (type : Text)
  | unhashable (type : Text)
  deriving DecidableEq, Repr

namespace RegistryFault

def message : RegistryFault → Text
  | noName => codes "Metric name should not be empty"
  | noStem => codes "metric name cannot be empty"
  | unwritable run => run.message
  | taken names =>
    codes "Duplicated timeseries in CollectorRegistry: \x7b" ++
      Text.join (codes ", ") (names.map Text.quoted) ++ codes "\x7d"
  | notText type => codes "can only concatenate str (not \"" ++ type ++ codes "\") to str"
  | unhashable type => codes "unhashable type: '" ++ type ++ codes "'"

end RegistryFault

namespace Registry

def newStem (kind : CollectorKind) (name : Text) : Except RegistryFault Text :=
  let stem := kind.stem name
  if name.isEmpty then .error .noName
  else if stem.isEmpty then .error .noStem
  else
    match Text.unwritable? (fun _ => false) stem with
    | none => .ok stem
    | some run => .error (.unwritable run)

def register (r : Registry) (names : List Text) : Registry :=
  { r with owners := r.owners ++ names.map (·, r.size), size := r.size + 1 }

/-- The number of a collector: how many others were asked for before it. -/
def number (r : Registry) (collector : Nat) : Nat × Registry :=
  match r.known.idxOf? collector with
  | some n => (n, r)
  | none => (r.known.length, { r with known := r.known ++ [collector] })

/-- The collector that owns a name, or a new one. The names of the new one must all be free. -/
def collector (r : Registry) (kind : CollectorKind) (name : Text) :
    Except RegistryFault (Nat × Registry) :=
  match r.owners.lookup name with
  | some owner => .ok (r.number owner)
  | none => do
    let names := kind.seriesNames (← newStem kind name)
    match names.filter fun n => (r.owners.lookup n).isSome with
    | [] => return (r.register names).number r.size
    | taken => throw (.taken taken)

def collectorOf (r : Registry) (kind : CollectorKind) (name : Value) :
    Except RegistryFault (Nat × Registry) :=
  match name with
  | .text t => r.collector kind t
  | .list _ | .object _ => .error (.unhashable name.typeName)
  | v => .error (if v.truthy then .notText v.typeName else .noName)

/-- The names of collectors that every registry has: those of the process, of its platform and of
its memory. A gauge owns its name alone. -/
def standing : List (List Text) :=
  [["process_virtual_memory_bytes", "process_resident_memory_bytes", "process_start_time_seconds",
      "process_open_fds", "process_max_fds"].map codes ++
      CollectorKind.counter.seriesNames (codes "process_cpu_seconds"),
    [codes "python_info"],
    ["python_gc_objects_collected", "python_gc_objects_uncollectable",
      "python_gc_collections"].flatMap fun name => CollectorKind.counter.seriesNames (codes name)]

def libraryCollectors : List (CollectorKind × Text) :=
  [(.counter, codes "emoji_pattern_compiles_total"),
    (.histogram, codes "emoji_pattern_compile_seconds"),
    (.counter, codes "emoji_scanner_matches_total")]

def ask (r : Registry) (c : CollectorKind × Text) : Registry :=
  match r.collector c.1 c.2 with
  | .ok (_, r) => r
  | .error _ => r

def start : Registry := libraryCollectors.foldl ask (standing.foldl register ⟨[], 0, []⟩)

end Registry

end Pictograph
