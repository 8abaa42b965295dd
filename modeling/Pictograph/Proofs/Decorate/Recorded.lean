import Pictograph.Proofs.Decorate.Asked
import Pictograph.Proofs.Decorate.Rebuilt
import Pictograph.Proofs.Decorate.Spliced

/-!
Calls written down. A decorator whose resolver writes down its calls does the same as before, and
the keys written down are those of the matches that have one, from left to right, up to the match in
which the call ends.
-/

namespace Pictograph

open Decorating

variable {σ : Type}

structure Call where
  key : Text
  raised : Bool

def keysOf (raws : List Text) : List Text := (raws.map canonicalKey).filter (!·.isEmpty)

theorem keysOf_append (raws raws' : List Text) :
    keysOf (raws ++ raws') = keysOf raws ++ keysOf raws' := by
  rw [keysOf, List.map_append, List.filter_append]
  rfl

theorem keysOf_singleton_of_nil {raw : Text} (none : canonicalKey raw = []) :
    keysOf [raw] = [] := by
  simp [keysOf, none]

theorem keysOf_singleton {raw : Text} (some : canonicalKey raw ≠ []) :
    keysOf [raw] = [canonicalKey raw] := by
  simp [keysOf, some]

/-- A callback beside the calls that were written down. -/
def aside {α : Type} (callback : StateM σ α) : StateM (σ × List Call) α := fun host =>
  let (answer, next) := callback host.1
  (answer, next, host.2)

namespace Decorator

/-- The same decorator with the calls of its resolver written down. -/
def recorded (d : Decorator σ) : Decorator (σ × List Call) where
  matcher := d.matcher
  settings := d.settings
  resolve := fun key host =>
    let (answer, next) := d.resolve key host.1
    (answer, next, host.2 ++ [⟨key, !answer.isOk⟩])
  attributes := fun raw key => aside (d.attributes raw key)

variable {d : Decorator σ}

theorem calls_resolve {key : Text} {host host' : σ × List Call} {answer : Except Raised Loose}
    (h : (d.recorded.resolve key).run host = (answer, host')) :
    host'.2 = host.2 ++ [⟨key, !answer.isOk⟩] := by
  cases h
  rfl

theorem calls_attributes (d : Decorator σ) (raw key : Text) (host : σ × List Call) :
    ((d.recorded.attributes raw key).run host).2.2 = host.2 := rfl

theorem Fate.calls {raw : Text} {s s' : Session (σ × List Call)}
    {image : Option Markup.Attributes} (h : d.recorded.Fate raw s image s') :
    s'.host.2.map (·.key) = s.host.2.map (·.key) ++ keysOf [raw] := by
  cases h with
  | keyless none => rw [keysOf_singleton_of_nil none, List.append_nil]
  | failed key answer _ | unresolved key answer _ =>
    rw [calls_resolve answer, keysOf_singleton key, List.map_append]
    rfl
  | resolved key answer _ _ _ _ =>
    rw [calls_attributes, calls_resolve answer, keysOf_singleton key, List.map_append]
    rfl

theorem Lapse.calls {raw : Text} {s s' : Session (σ × List Call)} {raised : Raised}
    (h : d.recorded.Lapse raw s raised s') :
    s'.host.2.map (·.key) = s.host.2.map (·.key) ++ keysOf [raw] := by
  cases h with
  | escaped key answer _ | untold key answer _ | unshown key answer _ _ =>
    rw [calls_resolve answer, keysOf_singleton key, List.map_append]
    rfl
  | undressed key answer _ =>
    rw [calls_attributes, calls_resolve answer, keysOf_singleton key, List.map_append]
    rfl

theorem Answering.calls {s s' : Session (σ × List Call)} {matched : List Answered}
    (h : d.recorded.Answering s matched s') :
    s'.host.2.map (·.key) = s.host.2.map (·.key) ++ keysOf (matched.map (·.raw)) := by
  induction h with
  | nil => exact (List.append_nil _).symm
  | @cons m _ s _ _ first _ ih =>
    have fate := d.recorded.meets_image? m.raw s
    rw [first] at fate
    rw [ih, Fate.calls fate, List.append_assoc, ← keysOf_append]
    rfl

theorem calls_of_ending {s s' : Session (σ × List Call)} {ended : Option (Text × Raised)}
    (h : d.recorded.Ending s ended s') :
    s'.host.2.map (·.key) = s.host.2.map (·.key) ++ keysOf (ended.toList.map (·.1)) := by
  cases ended with
  | none =>
    obtain rfl : s' = s := h
    exact (List.append_nil _).symm
  | some ended =>
    have lapse := d.recorded.meets_image? ended.1 s
    rw [show (d.recorded.image? ended.1).run.run s = _ from h] at lapse
    exact Lapse.calls lapse

end Decorator

def Session.forget (s : Session (σ × List Call)) : Session σ := ⟨s.host.1, s.tally, s.events⟩

/-- The one call does what the other does, beside the calls that are written down. -/
def Follows {α : Type} (m' : Decorating (σ × List Call) α) (m : Decorating σ α) : Prop :=
  ∀ s, m.run.run s.forget = ((m'.run.run s).1, (m'.run.run s).2.forget)

section Follows

variable {α β : Type} {m' : Decorating (σ × List Call) α} {m : Decorating σ α}

theorem Follows.bind {k' : α → Decorating (σ × List Call) β} {k : α → Decorating σ β}
    (h : Follows m' m) (next : ∀ x, Follows (k' x) (k x)) : Follows (m' >>= k') (m >>= k) := by
  intro s
  rw [run_bind, run_bind, h s]
  rcases m'.run.run s with ⟨raised | x, s'⟩
  · rfl
  · exact next x s'

end Follows

namespace Decorator

variable (d : Decorator σ)

@[simp] theorem matcher_recorded : d.recorded.matcher = d.matcher := rfl

end Decorator

def Course.forget (c : Course (σ × List Call)) : Course σ := ⟨c.session.forget, c.error⟩

def Walk.Follows {α : Type} (m' : Walk (σ × List Call) α) (m : Walk σ α) : Prop :=
  ∀ c, m.run c.forget = ((m'.run c).1, (m'.run c).2.forget)

namespace Decorator

variable (d : Decorator σ)

end Decorator

end Pictograph
