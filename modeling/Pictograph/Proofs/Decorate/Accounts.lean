import Mathlib.Algebra.BigOperators.Group.List.Basic
import Mathlib.Algebra.Ring.Nat
import Pictograph.Metrics.Basic
import Pictograph.Proofs.Decorate.Heard
import Pictograph.Proofs.Decorate.Html

/-!
Accounts of matches. Whatever is done with a decorator, and whatever its callbacks do, the matches of
the texts that are decorated are counted, each under one outcome; the images that come out, the calls
of the resolver, its errors and what is logged of them agree with the counts. A call that an error
ends leaves at most one match uncounted, the one in which it ends.
-/

namespace Pictograph

variable {σ : Type}

/-- The metrics of a session, in which counting is enabled. -/
def Session.metrics (s : Session σ) : Metrics := { Metrics.start with matched := s.tally }

def Session.counted (s : Session σ) (outcome : String) : Nat := s.tally.count (codes outcome)

/-- One for the label under which an outcome is counted, and nothing for the others. -/
def hit (label outcome : String) : Nat := if codes label = codes outcome then 1 else 0

/-- The accounts of a session after some matches were asked about: how many were resolved, how many
were not counted, and how many errors of the resolver nothing handled. All other matches are counted
under one outcome, all other errors are counted and logged, and the resolver was called for the
matches that have a key. -/
structure Balanced (asked : List Text) (r uncounted unhandled : Nat)
    (s : Session (σ × List Call)) : Prop where
  ascending : s.tally.Ascending
  images : s.counted "resolved" = r
  all : r + s.counted "unresolved" + s.counted "error" + uncounted = asked.length
  raised : s.host.2.countP (·.raised) = s.counted "error" + unhandled
  logged : s.events.countP tellsFailure = s.counted "error"
  keys : s.host.2.map (·.key) = keysOf asked

variable {d : Decorator σ} {asked : List Text} {r e u : Nat} {s s' s'' : Session (σ × List Call)}

theorem countP_tellsFailure_append {events warnings : List Log.Event}
    (other : ∀ e ∈ warnings, tellsFailure e = false) :
    (events ++ warnings).countP tellsFailure = events.countP tellsFailure := by
  have none : warnings.countP tellsFailure = 0 := by
    rw [List.countP_eq_zero]
    intro e he
    rw [other e he]
    exact Bool.false_ne_true
  rw [List.countP_append, none, Nat.add_zero]

theorem countP_raised {key : Text} {host host' : σ × List Call} {answer : Except Raised Loose}
    (h : (d.recorded.resolve key).run host = (answer, host')) :
    host'.2.countP (·.raised) = host.2.countP (·.raised) + if answer.isOk then 0 else 1 := by
  rw [Decorator.calls_resolve h, List.countP_append]
  cases answer with
  | ok v => rfl
  | error raised => rfl

theorem Balanced.bump (h : Balanced asked r e u s) {raw : Text} {outcome : String}
    (tally : s'.tally = s.tally.bump (codes outcome))
    (known : hit "resolved" outcome + hit "unresolved" outcome + hit "error" outcome = 1)
    (raised : s'.host.2.countP (·.raised) = s.host.2.countP (·.raised) + hit "error" outcome)
    (logged : s'.events.countP tellsFailure = s.events.countP tellsFailure + hit "error" outcome)
    (keys : s'.host.2.map (·.key) = s.host.2.map (·.key) ++ keysOf [raw]) :
    Balanced (asked ++ [raw]) (r + hit "resolved" outcome) e u s' := by
  have counted : ∀ label, s'.counted label = s.counted label + hit label outcome := by
    intro label
    rw [Session.counted, tally]
    exact Counter.count_bump h.ascending ..
  refine ⟨tally ▸ h.ascending.bump _, ?_, ?_, ?_, ?_, ?_⟩
  · rw [counted, h.images]
  · rw [counted, counted, List.length_append, List.length_singleton, ← h.all]
    omega
  · rw [raised, counted, h.raised, Nat.add_right_comm]
  · rw [logged, counted, h.logged]
  · rw [keys, h.keys, keysOf_append]

theorem Balanced.skip (h : Balanced asked r e u s) {raw : Text} {u' : Nat}
    (tally : s'.tally = s.tally)
    (raised : s'.host.2.countP (·.raised) = s.host.2.countP (·.raised) + u')
    (events : s'.events = s.events)
    (keys : s'.host.2.map (·.key) = s.host.2.map (·.key) ++ keysOf [raw]) :
    Balanced (asked ++ [raw]) r (e + 1) (u + u') s' := by
  have counted : ∀ label, s'.counted label = s.counted label := by
    intro label
    rw [Session.counted, tally]
    rfl
  refine ⟨tally ▸ h.ascending, ?_, ?_, ?_, ?_, ?_⟩
  · rw [counted, h.images]
  · rw [counted, counted, List.length_append, ← h.all]
    rfl
  · rw [raised, counted, h.raised, Nat.add_assoc]
  · rw [events, counted, h.logged]
  · rw [keys, h.keys, keysOf_append]

theorem Balanced.step (h : Balanced asked r e u s) {raw : Text} {image : Option Markup.Attributes}
    (fate : d.recorded.Fate raw s image s') :
    Balanced (asked ++ [raw]) (r + image.toList.length) e u s' := by
  have keys := fate.calls
  cases fate with
  | keyless none => exact h.bump rfl (by decide) rfl rfl keys
  | failed key answer handled =>
    refine h.bump rfl (by decide) (countP_raised answer) ?_ keys
    rw [List.countP_append]
    rfl
  | unresolved key answer nothing =>
    exact h.bump rfl (by decide) (countP_raised answer) rfl keys
  | resolved key answer something display attributes other =>
    refine h.bump rfl (by decide) ?_ (countP_tellsFailure_append other) keys
    rw [Decorator.calls_attributes]
    exact countP_raised answer

/-- A match in which the call ends has counted as resolved, or it is not counted. -/
theorem Balanced.lapse (h : Balanced asked r e u s) {raw : Text} {raised : Raised}
    (lapse : d.recorded.Lapse raw s raised s') :
    ∃ r' e' u', r' + e' = 1 ∧ u' ≤ e' ∧
      Balanced (asked ++ [raw]) (r + r') (e + e') (u + u') s' := by
  have keys := lapse.calls
  cases lapse with
  | escaped key answer through =>
    exact ⟨0, 1, 1, rfl, Nat.le_refl 1, h.skip rfl (countP_raised answer) rfl keys⟩
  | untold key answer truthy =>
    exact ⟨0, 1, 0, rfl, Nat.zero_le 1, h.skip rfl (countP_raised answer) rfl keys⟩
  | unshown key answer something display =>
    refine ⟨hit "resolved" "resolved", 0, 0, rfl, Nat.le_refl 0, ?_⟩
    exact h.bump rfl (by decide) (countP_raised answer) rfl keys
  | undressed key answer something =>
    refine ⟨hit "resolved" "resolved", 0, 0, rfl, Nat.le_refl 0, h.bump rfl (by decide) ?_ rfl keys⟩
    rw [Decorator.calls_attributes]
    exact countP_raised answer

theorem Balanced.run (h : Balanced asked r e u s) {matched : List Answered}
    (answering : d.recorded.Answering s matched s') :
    Balanced (asked ++ matched.map (·.raw)) (r + (resolved matched).length) e u s' := by
  induction answering generalizing asked r with
  | nil => rwa [List.map_nil, List.append_nil]
  | @cons m matched s _ _ first _ ih =>
    have fate := d.recorded.meets_image? m.raw s
    rw [first] at fate
    have balanced := ih (h.step fate)
    have images : (resolved (m :: matched)).length =
        m.image.toList.length + (resolved matched).length := by
      rw [resolved, List.filterMap_cons]
      cases m.image with
      | none => exact (Nat.zero_add _).symm
      | some attributes => exact Nat.add_comm ..
    rw [images, ← Nat.add_assoc, List.map_cons, ← List.singleton_append, ← List.append_assoc]
    exact balanced

theorem Balanced.ending (h : Balanced asked r e u s) {ended : Option (Text × Raised)}
    (ending : d.recorded.Ending s ended s') :
    ∃ r' e' u', e' ≤ 1 ∧ u' ≤ e' ∧ (ended = none → r' = 0 ∧ e' = 0) ∧
      Balanced (asked ++ ended.toList.map (·.1)) (r + r') (e + e') (u + u') s' := by
  cases ended with
  | none =>
    obtain rfl : s' = s := ending
    refine ⟨0, 0, 0, Nat.zero_le 1, Nat.le_refl 0, fun _ => ⟨rfl, rfl⟩, ?_⟩
    rwa [Option.toList_none, List.map_nil, List.append_nil]
  | some ended =>
    have lapse := d.recorded.meets_image? ended.1 s
    rw [show (d.recorded.image? ended.1).run.run s = _ from ending] at lapse
    obtain ⟨r', e', u', one, le, balanced⟩ := h.lapse lapse
    exact ⟨r', e', u', by omega, le, nofun, balanced⟩

/-- The images of a text in which the call ended: they are made, but do not come out. -/
def Asked.lost (x : Asked) : List Markup.Attributes :=
  match x.ended with
  | some _ => resolved x.matched
  | none => []

theorem length_resolved_matchedOf (asked : List Asked) :
    (resolved (matchedOf asked)).length =
      (asked.flatMap (·.images)).length + (asked.flatMap (·.lost)).length := by
  induction asked with
  | nil => rfl
  | cons x asked ih =>
    have split : (resolved x.matched).length = x.images.length + x.lost.length := by
      obtain ⟨t, matched, _ | ended⟩ := x
      · rfl
      · exact (Nat.zero_add _).symm
    rw [matchedOf, List.flatMap_cons, ← matchedOf, resolved_append, List.length_append, ih, split,
      List.flatMap_cons, List.flatMap_cons, List.length_append, List.length_append]
    omega

theorem rawsOf_eq_scanned {p : Matcher} {asked : List Asked} (whole : ∀ x ∈ asked, x.Whole p) :
    rawsOf asked = p.scanned (asked.map (·.text)) := by
  have none : endedOf asked = none := List.findSome?_eq_none_iff.2 fun x hx => (whole x hx).ended
  rw [rawsOf, none, Option.toList_none, List.map_nil, List.append_nil, matchedOf, List.map_flatMap,
    Matcher.scanned, List.flatMap_map]
  refine List.flatMap_congr fun x hx => ?_
  rw [← p.matches_cut, ← (whole x hx).parts, List.map_map]
  rfl

/-- What callers do with a decorator. The callback of a replacement may work on the same state as
those of the decorator, and may raise an error. -/
inductive Operation (σ : Type) where
  | find (t : Text)
  | test (t : Text)
  | replace (t : Text) (callback : Text → ExceptT Raised (StateM σ) Text)
  | html (t : Text)
  | element (e : Element)
  | document (above : List Text) (name : Text) (attributes : List (Text × Value))
      (children : List Node)

/-- What callers get. A tree is there as it is when the pass over it ends, with the error that ended
it, if one did. -/
inductive Response where
  | found (found : List Found)
  | tested (b : Bool)
  | replaced (out : Except Raised Text)
  | html (out : Except Raised Text)
  | element (e : Element) (error : Option Raised)
  | document (n : Node) (error : Option Raised)

def Response.error : Response → Option Raised
  | html (.error raised) => some raised
  | element _ error | document _ error => error
  | _ => none

def Walk.alone {α : Type} (m : Walk σ α) : StateM (Session σ) (α × Option Raised) := fun s =>
  let (x, c) := m.run ⟨s, none⟩
  ((x, c.error), c.session)

namespace Operation

/-- Does what a caller asks for, with the callbacks of the caller put beside those of the
decorator. -/
def run {τ : Type} (d : Decorator τ) (beside : ∀ {α : Type}, StateM σ α → StateM τ α) :
    Operation σ → StateM (Session τ) Response
  | find t => return .found (d.matcher.find t)
  | test t => return .tested (d.matcher.test t)
  | replace t callback => fun s =>
    let (out, host) := beside (d.matcher.replaceM callback t).run s.host
    (.replaced out, { s with host })
  | html t => do return .html (← (d.html t).run)
  | element e => do
    let (e, error) ← (Element.decorate d e).alone
    return .element e error
  | document above name attributes children => do
    let (n, error) ← (Node.decorateInside d above (.element name attributes children)).alone
    return .document n error

def visited : Operation σ → List Text
  | html t => [t]
  | element e => e.visited
  | document above name _ children =>
    Node.visitedAll ((name :: above).any Markup.isSkipped) children
  | _ => []

def scanned (p : Matcher) (op : Operation σ) : List Text := p.scanned op.visited

end Operation

/-- How many images came out of what a caller asked for: those in an HTML text, and those that were
put in a tree. -/
inductive Emits (p : Matcher) : Operation σ → Response → Nat → Prop
  | found (t : Text) : Emits p (.find t) (.found (p.find t)) 0
  | tested (t : Text) : Emits p (.test t) (.tested (p.test t)) 0
  | replaced (t : Text) (callback : Text → ExceptT Raised (StateM σ) Text)
      (out : Except Raised Text) : Emits p (.replace t callback) (.replaced out) 0
  | html {t : Text} {matched : List Answered} (parts : matched.map Answered.part = (p.cut t).parts) :
      Emits p (.html t)
        (.html (.ok (Pattern.joined
          (matched.map fun m => (m.gap, shown Markup.renderImage m.raw m.image)) (p.cut t).rest)))
        (resolved matched).length
  | noHtml (t : Text) (raised : Raised) : Emits p (.html t) (.html (.error raised)) 0
  | element {e e' : Element} {error : Option Raised} {heard : List Heard}
      (reads : e.Reads e' heard) :
      Emits p (.element e) (.element e' error) (heard.flatMap (·.images)).length
  | document {above : List Text} {name : Text} {attributes : List (Text × Value)}
      {children children' : List Node} {error : Option Raised} {heard : List Heard}
      (reads : Node.ReadsAll children children' heard) :
      Emits p (.document above name attributes children)
        (.document (.element name attributes children') error) (heard.flatMap (·.images)).length

inductive EmitsAll (p : Matcher) : List (Operation σ) → List Response → Nat → Prop
  | nil : EmitsAll p [] [] 0
  | cons {op : Operation σ} {out : Response} {ops : List (Operation σ)} {outs : List Response}
      {n n' : Nat} (first : Emits p op out n) (later : EmitsAll p ops outs n') :
      EmitsAll p (op :: ops) (out :: outs) (n + n')

/-- What something that a caller asked for comes to: the matches that were asked about, the images
that came out and those that were lost, the matches that were not counted, and the errors of the
resolver that nothing handled. -/
structure Receipt where
  asked : List Text
  images : Nat
  lost : Nat
  uncounted : Nat
  unhandled : Nat

namespace Receipt

/-- What it comes to, and what the caller got. Without an error all matches were asked about, and no
image was lost. -/
structure Fits (p : Matcher) (op : Operation σ) (out : Response) (c : Receipt) : Prop where
  emits : Emits p op out c.images
  asked : c.asked <+: op.scanned p
  uncounted : c.uncounted ≤ 1
  unhandled : c.unhandled ≤ c.uncounted
  whole : out.error = none → c.asked = op.scanned p ∧ c.lost = 0 ∧ c.uncounted = 0

inductive FitsAll (p : Matcher) : List (Operation σ) → List Response → List Receipt → Prop
  | nil : FitsAll p [] [] []
  | cons {op : Operation σ} {out : Response} {c : Receipt} {ops : List (Operation σ)}
      {outs : List Response} {cs : List Receipt} (first : c.Fits p op out)
      (later : FitsAll p ops outs cs) : FitsAll p (op :: ops) (out :: outs) (c :: cs)

structure Sums (xs : List Asked) (c : Receipt) : Prop where
  asked : c.asked = rawsOf xs
  images : c.images = (xs.flatMap (·.images)).length
  uncounted : c.uncounted ≤ 1
  unhandled : c.unhandled ≤ c.uncounted
  whole : endedOf xs = none → c.lost = 0 ∧ c.uncounted = 0

variable {p : Matcher} {op : Operation σ} {out : Response} {c : Receipt} {xs : List Asked}

theorem Sums.fits (h : c.Sums xs) (emits : Emits p op out (xs.flatMap (·.images)).length)
    (inside : rawsOf xs <+: op.scanned p)
    (whole : out.error = none → endedOf xs = none ∧ rawsOf xs = op.scanned p) :
    c.Fits p op out where
  emits := h.images ▸ emits
  asked := h.asked ▸ inside
  uncounted := h.uncounted
  unhandled := h.unhandled
  whole := fun none => ⟨h.asked.trans (whole none).2, h.whole (whole none).1⟩

variable {ops : List (Operation σ)} {outs : List Response} {cs : List Receipt}

theorem FitsAll.emits (h : FitsAll p ops outs cs) : EmitsAll p ops outs (cs.map (·.images)).sum := by
  induction h with
  | nil => exact .nil
  | cons first _ ih => exact .cons first.emits ih

theorem FitsAll.whole (h : FitsAll p ops outs cs) (none : ∀ out ∈ outs, out.error = none) :
    cs.flatMap (·.asked) = ops.flatMap (Operation.scanned p) ∧ (cs.map (·.lost)).sum = 0 ∧
      (cs.map (·.uncounted)).sum = 0 ∧ (cs.map (·.unhandled)).sum = 0 := by
  induction h with
  | nil => exact ⟨rfl, rfl, rfl, rfl⟩
  | @cons op out c ops outs cs first _ ih =>
    rw [List.forall_mem_cons] at none
    obtain ⟨asked, lost, uncounted⟩ := first.whole none.1
    have unhandled : c.unhandled = 0 := Nat.le_zero.1 (uncounted ▸ first.unhandled)
    obtain ⟨asked', lost', uncounted', unhandled'⟩ := ih none.2
    simp only [List.flatMap_cons, List.map_cons, List.sum_cons]
    rw [asked, lost, uncounted, unhandled, asked', lost', uncounted', unhandled']
    exact ⟨rfl, rfl, rfl, rfl⟩

end Receipt

theorem Balanced.sums (h : Balanced asked r e u s) {xs : List Asked}
    (answering : d.recorded.Answering s (matchedOf xs) s')
    (ending : d.recorded.Ending s' (endedOf xs) s'') :
    ∃ c : Receipt, c.Sums xs ∧
      Balanced (asked ++ c.asked) (r + (c.images + c.lost)) (e + c.uncounted) (u + c.unhandled)
        s'' := by
  obtain ⟨r', e', u', one, le, whole, balanced⟩ := (h.run answering).ending ending
  rw [length_resolved_matchedOf, List.append_assoc, Nat.add_assoc, Nat.add_assoc] at balanced
  refine ⟨⟨rawsOf xs, _, (xs.flatMap (·.lost)).length + r', e', u'⟩, ⟨rfl, rfl, one, le, ?_⟩,
    balanced⟩
  intro none
  have nothing : xs.flatMap (·.lost) = [] := by
    refine List.flatMap_eq_nil_iff.2 fun x hx => ?_
    rw [Asked.lost, List.findSome?_eq_none_iff.1 none x hx]
  obtain ⟨rfl, uncounted⟩ := whole none
  exact ⟨congrArg List.length nothing, uncounted⟩

theorem Balanced.pass (h : Balanced asked r e u s) {α : Type} {texts : List Text}
    {m : Walk (σ × List Call) α} {P : List Asked → α → Prop} (asks : Asks d.recorded texts m P) :
    ∃ (xs : List Asked) (c : Receipt), P xs (m.run ⟨s, none⟩).1 ∧ c.Sums xs ∧
      rawsOf xs <+: d.matcher.scanned texts ∧
      ((m.run ⟨s, none⟩).2.error = none → endedOf xs = none ∧
        rawsOf xs = d.matcher.scanned texts) ∧
      Balanced (asked ++ c.asked) (r + (c.images + c.lost)) (e + c.uncounted) (u + c.unhandled)
        (m.run ⟨s, none⟩).2.session := by
  obtain ⟨same, here⟩ := asks ⟨s, none⟩
  obtain ⟨⟨s', answering, ending⟩, error, texts', -, raws, whole⟩ :=
    d.recorded.asking_asks texts ⟨s, none⟩
  rw [← same] at ending error whole
  rw [Option.none_or] at error
  obtain ⟨c, sums, balanced⟩ := h.sums answering ending
  refine ⟨_, c, here, sums, raws, fun none => ⟨?_, ?_⟩, balanced⟩
  · exact Option.map_eq_none_iff.1 (error.symm.trans none)
  · rw [rawsOf_eq_scanned (whole none), texts']
    rfl

namespace Operation

theorem step_html (t : Text) (h : Balanced asked r e u s) :
    ∃ c : Receipt, c.Fits d.matcher (σ := σ) (.html t) (.html ((d.recorded.html t).run.run s).1) ∧
      Balanced (asked ++ c.asked) (r + (c.images + c.lost)) (e + c.uncounted) (u + c.unhandled)
        ((d.recorded.html t).run.run s).2 := by
  obtain ⟨s', answering, ending, inside, whole⟩ :=
    d.recorded.answering_answers (d.matcher.cut t).parts s
  have one : ∀ (matched : List Answered) (ended : Option (Text × Raised)),
      matchedOf [⟨t, matched, ended⟩] = matched ∧ endedOf [⟨t, matched, ended⟩] = ended := by
    intro matched ended
    refine ⟨List.append_nil _, ?_⟩
    cases ended with
    | none => rfl
    | some _ => rfl
  rw [d.recorded.run_html, d.matcher_recorded]
  rcases ran : (d.recorded.answers (d.matcher.cut t).parts).run s with ⟨⟨matched, ended⟩, s''⟩
  rw [ran] at answering ending inside whole
  obtain ⟨matchedOf_one, endedOf_one⟩ := one matched ended
  rw [← matchedOf_one] at answering
  rw [← endedOf_one] at ending
  obtain ⟨c, sums, balanced⟩ := h.sums answering ending
  have raws : rawsOf [⟨t, matched, ended⟩] <+: d.matcher.scanned [t] := by
    rw [rawsOf, matchedOf_one, endedOf_one, Matcher.scanned_cons]
    exact inside.trans (List.prefix_append _ _)
  cases ended with
  | none =>
    have parts := whole rfl
    refine ⟨c, sums.fits ?_ raws fun _ => ⟨rfl, ?_⟩, balanced⟩
    · rw [List.flatMap_singleton]
      exact .html parts
    · refine rawsOf_eq_scanned fun x hx => ?_
      rw [List.mem_singleton.1 hx]
      exact ⟨parts, rfl⟩
  | some ended =>
    exact ⟨c, sums.fits (.noHtml t ended.2) raws fun none => absurd none (Option.some_ne_none _),
      balanced⟩

/-- One more thing that a caller asks for keeps the accounts balanced, and as many images come out
of it as matches were resolved and not lost. -/
theorem step (op : Operation σ) (h : Balanced asked r e u s) :
    ∃ c : Receipt, c.Fits d.matcher op ((op.run d.recorded aside).run s).1 ∧
      Balanced (asked ++ c.asked) (r + (c.images + c.lost)) (e + c.uncounted) (u + c.unhandled)
        ((op.run d.recorded aside).run s).2 := by
  have idle : ∀ {op : Operation σ} {out : Response}, Emits d.matcher op out 0 →
      op.scanned d.matcher = [] → Receipt.Fits d.matcher op out ⟨[], 0, 0, 0, 0⟩ :=
    fun emits nothing => ⟨emits, List.nil_prefix, Nat.zero_le 1, Nat.le_refl 0,
      fun _ => ⟨nothing.symm, rfl, rfl⟩⟩
  cases op with
  | find t => exact ⟨_, idle (.found t) rfl, by rwa [List.append_nil]⟩
  | test t => exact ⟨_, idle (.tested t) rfl, by rwa [List.append_nil]⟩
  | replace t callback =>
    -- The accounts say nothing of the state that the callback may have changed.
    refine ⟨_, idle (.replaced t callback _) rfl, ?_⟩
    rw [List.append_nil]
    exact ⟨h.ascending, h.images, h.all, h.raised, h.logged, h.keys⟩
  | html t => exact step_html t h
  | element e =>
    obtain ⟨xs, c, ⟨order, heard, perm, reads, told⟩, sums, inside, whole, balanced⟩ :=
      h.pass (Element.asks_decorate d.recorded e)
    refine ⟨c, sums.fits ?_ inside whole, balanced⟩
    have images : (xs.flatMap (·.images)).length = (heard.flatMap (·.images)).length := by
      rw [told.images]
      exact (perm.symm.flatMap_right _).length_eq
    rw [images]
    exact .element reads
  | document above name attributes children =>
    obtain ⟨xs, c, ⟨children', heard, out, reads, told⟩, sums, inside, whole, balanced⟩ :=
      h.pass (Node.asks_decorateInside d.recorded above name attributes children)
    refine ⟨c, sums.fits ?_ inside whole, balanced⟩
    have out' : ((run d.recorded aside (.document above name attributes children)).run s).1 =
        .document ((Node.decorateInside d.recorded above (.element name attributes children)).run
            ⟨s, none⟩).1
          ((Node.decorateInside d.recorded above (.element name attributes children)).run
            ⟨s, none⟩).2.error := rfl
    rw [out', out, ← told.images]
    exact .document reads

end Operation

end Pictograph
