import Mathlib.Data.List.Perm.Subperm
import Pictograph.Proofs.Decorate.Heard
import Pictograph.Proofs.Decorate.Html
import Pictograph.Proofs.Markup.Merged
import Pictograph.Proofs.Traversal

/-!
Images and the attributes callers give them. Whatever the callbacks do, an image has only names that
are safe, and all proper ones that it was given; of the others only those stay that are proper up to
a line break at the end.
-/

namespace Pictograph

open Decorating Markup

/-- A member of a mapping has a name whose text is this one, and a value other than null. -/
def Mapping.Offers (m : Mapping) (name : Text) : Prop :=
  m.truthy = .ok true ∧ ∃ k v, .ok (k, v) ∈ m.members ∧ v.isNull = false ∧ k.display = .ok name

def Answers.Offers (a : Answers) (raw name : Text) : Prop :=
  ∃ m, a.attributes raw (canonicalKey raw) = .ok (.mapping m) ∧ m.Offers name

theorem Mapping.mem_names_textsOf {members : List (Except Raised (Loose × Loose))}
    {given : List (Text × Text)} (h : textsOf members = .ok given) {name : Text} :
    name ∈ given.map (·.1) ↔
      ∃ k v, .ok (k, v) ∈ members ∧ v.isNull = false ∧ k.display = .ok name := by
  induction members generalizing given with
  | nil =>
    obtain rfl := Except.ok.inj h
    simp
  | cons member rest ih =>
    rw [textsOf] at h
    obtain ⟨⟨k, v⟩, rfl, given_eq⟩ := Traversal.bind_eq_ok.1 h
    clear h
    dsimp only at given_eq
    simp only [List.mem_cons, or_and_right, exists_or, Except.ok.injEq, Prod.mk.injEq]
    cases null : v.isNull with
    | true =>
      rw [null, if_pos rfl] at given_eq
      rw [ih given_eq]
      refine (or_iff_right ?_).symm
      rintro ⟨k', v', ⟨rfl, rfl⟩, other, -⟩
      exact Bool.false_ne_true (other.symm.trans null)
    | false =>
      rw [null, if_neg Bool.false_ne_true] at given_eq
      obtain ⟨shown, -, given_eq⟩ := Traversal.bind_eq_ok.1 given_eq
      obtain ⟨name', display, given_eq⟩ := Traversal.bind_eq_ok.1 given_eq
      obtain ⟨given', later, given_eq⟩ := Traversal.bind_eq_ok.1 given_eq
      obtain rfl := Except.ok.inj given_eq
      rw [List.map_cons, List.mem_cons, ih later]
      refine or_congr_left ⟨?_, ?_⟩
      · rintro rfl
        exact ⟨k, v, ⟨rfl, rfl⟩, null, display⟩
      · rintro ⟨k', v', ⟨rfl, rfl⟩, -, same⟩
        exact Except.ok.inj (same.symm.trans display)

theorem Answers.mem_names_given {a : Answers} {raw name : Text} {given : List (Text × Text)}
    (h : a.given raw (canonicalKey raw) = .ok given) :
    name ∈ given.map (·.1) ↔ a.Offers raw name := by
  rw [Answers.given] at h
  rw [Offers]
  cases answer : a.attributes raw (canonicalKey raw) with
  | error raised =>
    rw [answer] at h
    obtain ⟨shown, -, h⟩ := Traversal.bind_eq_ok.1 h
    obtain rfl := Except.ok.inj h
    simp
  | ok offered =>
    rw [answer] at h
    cases offered with
    | nothing =>
      obtain rfl := Except.ok.inj h
      simp
    | other type =>
      obtain rfl := Except.ok.inj h
      simp
    | mapping m =>
      obtain ⟨truthy, counts, h⟩ := Traversal.bind_eq_ok.1 h
      simp only [Except.ok.injEq, Offered.mapping.injEq, exists_eq_left', Mapping.Offers, counts]
      cases truthy with
      | true => rw [Mapping.mem_names_textsOf h, and_iff_right rfl]
      | false =>
        obtain rfl := Except.ok.inj h
        simp

/-- An image of a match as its attributes should be, for what a caller offered. -/
structure Dressed (a : Answers) (raw : Text) (image : Attributes) : Prop where
  once : (image.map (·.1)).Nodup
  safe : ∀ name ∈ image.map (·.1), Proper name ∨ Broken name
  /-- Only a caller brings in a name that is not proper, and that by a line break after it. -/
  proper_iff : (∀ name ∈ image.map (·.1), Proper name) ↔
    ∀ name, a.Offers raw name → ¬ Broken name
  given : ∀ name, a.Offers raw name → Proper name → name ∈ image.map (·.1)
  value : ∃ given, a.given raw (canonicalKey raw) = .ok given ∧
    ∀ name v, Proper name → name ≠ codes "alt" → lastGiven given name = some v →
      image.lookup name = some v
  alt : image.lookup (codes "alt") = some raw

def usualNames : List Text := [codes "draggable", codes "class", codes "alt", codes "src"]

theorem proper_of_mem_usualNames : ∀ name ∈ usualNames, Proper name := by decide +kernel

theorem mem_names_dress (settings : DecoratorSettings) (raw src : Text)
    (given : List (Text × Text)) (name : Text) :
    name ∈ (Decorator.dress settings raw src given).map (·.1) ↔
      isSafeName name = true ∧ (name ∈ usualNames ∨ name ∈ given.map (·.1)) := by
  have alt : isSafeName (codes "alt") = true ∧ codes "alt" ∈ usualNames := by decide +kernel
  rw [Decorator.dress, mem_names_setMember, mem_names_merge]
  constructor
  · rintro (there | rfl)
    · exact there
    · exact ⟨alt.1, .inl alt.2⟩
  · exact .inl

theorem dressed_dress {a : Answers} {raw : Text} {given : List (Text × Text)}
    (h : a.given raw (canonicalKey raw) = .ok given) (settings : DecoratorSettings) (src : Text) :
    Dressed a raw (Decorator.dress settings raw src given) where
  once := by
    have usual : usualNames.Nodup := by decide
    refine nodup_names_setMember (nodup_names_merge ?_) ..
    exact usual
  safe := by
    intro name there
    rw [mem_names_dress] at there
    exact isSafeName_iff.1 there.1
  proper_iff := by
    constructor
    · intro all name offered broken
      refine broken.not_proper (all name ?_)
      rw [mem_names_dress, a.mem_names_given h]
      exact ⟨isSafeName_iff.2 (.inr broken), .inr offered⟩
    · intro whole name there
      rw [mem_names_dress, isSafeName_iff, a.mem_names_given h] at there
      obtain ⟨proper | broken, usual | offered⟩ := there
      · exact proper
      · exact proper
      · exact proper_of_mem_usualNames name usual
      · exact absurd broken (whole name offered)
  given := by
    intro name offered proper
    rw [mem_names_dress, a.mem_names_given h]
    exact ⟨proper.isSafeName, .inr offered⟩
  value := by
    refine ⟨given, h, fun name v proper other last => ?_⟩
    rw [Decorator.dress, lookup_setMember_of_ne _ _ other, lookup_merge proper.isSafeName, last]
    rfl
  alt := lookup_setMember_self ..

variable {σ : Type}

namespace Decorator

theorem dressed_image? (d : Decorator σ) (raw : Text) (s : Session σ) {image : Attributes}
    {s' : Session σ} (h : (d.image? raw).run.run s = (.ok (some image), s')) :
    Dressed (d.answersIn raw s) raw image := by
  have fate := d.meets_image? raw s
  rw [h] at fate
  cases fate with
  | resolved _ _ _ _ attributes _ => exact dressed_dress attributes ..

end Decorator

/-- Matches answered in order, each with no image or with one that is dressed for what the callbacks
answer in its session. -/
inductive Decorator.Dresses (d : Decorator σ) : Session σ → List Answered → Session σ → Prop
  | nil {s : Session σ} : Dresses d s [] s
  | cons {m : Answered} {matched : List Answered} {s s' s'' : Session σ}
      (first : (d.image? m.raw).run.run s = (.ok m.image, s'))
      (dressed : ∀ image, m.image = some image → Dressed (d.answersIn m.raw s) m.raw image)
      (later : Dresses d s' matched s'') :
      Dresses d s (m :: matched) s''

variable {d : Decorator σ} {s s' : Session σ} {matched : List Answered}

theorem Decorator.Answering.dresses (h : d.Answering s matched s') : d.Dresses s matched s' := by
  induction h with
  | nil => exact .nil
  | @cons m _ s _ _ first _ ih =>
    refine .cons first (fun image some => ?_) ih
    exact d.dressed_image? m.raw s (some ▸ first)

theorem Asks.dresses {α : Type} {texts : List Text} {m : Walk σ α} {P : List Asked → α → Prop}
    (asks : Asks d texts m P) (s : Session σ) :
    ∃ asked s', P asked (m.run ⟨s, none⟩).1 ∧ d.Dresses s (matchedOf asked) s' ∧
      d.Ending s' (endedOf asked) (m.run ⟨s, none⟩).2.session ∧
      (m.run ⟨s, none⟩).2.error = (endedOf asked).map (·.2) := by
  obtain ⟨same, here⟩ := asks ⟨s, none⟩
  obtain ⟨⟨s', answering, ending⟩, error, -, -, -, -⟩ := d.asking_asks texts ⟨s, none⟩
  rw [← same] at ending error
  exact ⟨_, s', here, answering.dresses, ending, error⟩

/-- The images for texts are those of the matches that were resolved, but for a text in which the
pass ended. -/
theorem images_sublist (asked : List Asked) :
    (asked.flatMap (·.images)).Sublist (resolved (matchedOf asked)) ∧
      (endedOf asked = none → asked.flatMap (·.images) = resolved (matchedOf asked)) := by
  induction asked with
  | nil => exact ⟨.slnil, fun _ => rfl⟩
  | cons x asked ih =>
    obtain ⟨t, matched, ended⟩ := x
    rw [matchedOf, List.flatMap_cons, List.flatMap_cons, ← matchedOf, resolved_append]
    cases ended with
    | none =>
      refine ⟨.append (.refl _) ih.1, fun none => ?_⟩
      exact congrArg (resolved matched ++ ·) (ih.2 none)
    | some ended =>
      exact ⟨.append (List.nil_sublist _) ih.1, fun none => absurd none (Option.some_ne_none _)⟩

/-- Whatever the callbacks do, every image in an HTML text and every one that is put in a tree is
dressed: each name in it is proper or is, by a line break at its end only, one that a caller gave;
every proper name that was given a value is there, and the alternative text is the match. -/
theorem images_dressed (d : Decorator σ) (s : Session σ) :
    (∀ t : Text, ∃ matched ended s',
      let html := (d.html t).run.run s
      d.Dresses s matched s' ∧ d.Ending s' ended html.2 ∧
      (∀ raw raised, ended = some (raw, raised) → html.1 = .error raised) ∧
      (ended = none → matched.map Answered.part = (d.matcher.cut t).parts ∧
        html.1 = .ok (Pattern.joined
          (matched.map fun m => (m.gap, shown renderImage m.raw m.image))
          (d.matcher.cut t).rest))) ∧
    (∀ e : Element, ∃ heard matched ended s',
      let decorated := (Element.decorate d e).run ⟨s, none⟩
      e.Reads decorated.1 heard ∧
      (heard.flatMap (·.images)).Subperm (resolved matched) ∧
      (ended = none → (heard.flatMap (·.images)).Perm (resolved matched)) ∧
      d.Dresses s matched s' ∧ d.Ending s' ended decorated.2.session ∧
      decorated.2.error = ended.map (·.2)) ∧
    ∀ (above : List Text) (name : Text) (attributes : List (Text × Value)) (children : List Node),
      ∃ children' heard matched ended s',
        let decorated :=
          (Node.decorateInside d above (.element name attributes children)).run ⟨s, none⟩
        decorated.1 = .element name attributes children' ∧
        Node.ReadsAll children children' heard ∧
        (heard.flatMap (·.images)).Sublist (resolved matched) ∧
        (ended = none → heard.flatMap (·.images) = resolved matched) ∧
        d.Dresses s matched s' ∧ d.Ending s' ended decorated.2.session ∧
        decorated.2.error = ended.map (·.2) := by
  refine ⟨fun t => ?_, fun e => ?_, fun above name attributes children => ?_⟩
  · obtain ⟨s', answering, ending, -, parts⟩ := d.answering_answers (d.matcher.cut t).parts s
    rw [d.run_html]
    rcases ran : (d.answers (d.matcher.cut t).parts).run s with ⟨⟨matched, ended⟩, s''⟩
    rw [ran] at answering ending parts
    refine ⟨matched, ended, s', answering.dresses, ?_⟩
    cases ended with
    | none => exact ⟨ending, nofun, fun _ => ⟨parts rfl, rfl⟩⟩
    | some ended => exact ⟨ending, fun raw raised same => by rw [Option.some.inj same], nofun⟩
  · obtain ⟨asked, s', ⟨order, heard, perm, reads, told⟩, dresses, ending, error⟩ :=
      (Element.asks_decorate d e).dresses s
    have images : (heard.flatMap (·.images)).Perm (asked.flatMap (·.images)) := by
      rw [told.images]
      exact perm.flatMap_right _
    obtain ⟨inside, all⟩ := images_sublist asked
    exact ⟨heard, _, _, s', reads, images.subperm.trans inside.subperm,
      fun none => images.trans (.of_eq (all none)), dresses, ending, error⟩
  · obtain ⟨asked, s', ⟨children', heard, out, reads, told⟩, dresses, ending, error⟩ :=
      (Node.asks_decorateInside d above name attributes children).dresses s
    obtain ⟨inside, all⟩ := images_sublist asked
    rw [← told.images] at inside all
    exact ⟨children', heard, _, _, s', out, reads, inside, all, dresses, ending, error⟩

def Decorator.titled : Decorator Nat :=
  { Decorator.byKey (.symbol 0x78) with
    attributes := fun _ _ calls =>
      (.ok (.mapping (.ofMembers [(codes "title\n", .text (codes "t"))])), calls) }

/-- The line break goes through into the HTML text, so a name in it is not proper. -/
theorem lineBreak_in_name_kept :
    let s : Session Nat := ⟨0, [], []⟩
    ((Decorator.titled.html (codes "axb")).run.run s).1 =
      .ok (codes "a<img draggable=\"false\" class=\"\" alt=\"x\" src=\"78\" title\n=\"t\"/>b") ∧
    ∃ image, ((Decorator.titled.image? (codes "x")).run.run s).1 = .ok (some image) ∧
      ¬ ∀ name ∈ image.map (·.1), Proper name := by
  intro s
  let image : Attributes := [(codes "draggable", codes "false"), (codes "class", []),
    (codes "alt", codes "x"), (codes "src", codes "78"), (codes "title\n", codes "t")]
  have made : ((Decorator.titled.image? (codes "x")).run.run s).1 = .ok (some image) := rfl
  have cut : (Decorator.titled.matcher.cut (codes "axb")).parts = [(codes "a", codes "x")] := by
    decide +kernel
  have ends : ((Decorator.titled.html (codes "axb")).run.run s).1.isOk = true := by decide +kernel
  obtain ⟨matched, ended, s', dresses, -, failed, whole⟩ :=
    (images_dressed Decorator.titled s).1 (codes "axb")
  cases ended with
  | some ended =>
    rw [failed ended.1 ended.2 rfl] at ends
    cases ends
  | none =>
    obtain ⟨parts, html⟩ := whole rfl
    rw [cut] at parts
    cases dresses with
    | nil => cases parts
    | @cons m _ _ _ _ first dressed later =>
      obtain ⟨gap, raw, given⟩ := m
      obtain ⟨part, rest⟩ := List.cons.inj parts
      obtain ⟨rfl, rfl⟩ := Prod.mk.inj part
      obtain rfl := List.map_eq_nil_iff.1 rest
      obtain rfl : given = some image :=
        Except.ok.inj ((congrArg (·.1) first).symm.trans made)
      refine ⟨html.trans (congrArg Except.ok (by decide +kernel)), image, made, ?_⟩
      rw [(dressed image rfl).proper_iff]
      intro all
      refine all (codes "title\n") ⟨_, rfl, rfl, _, _, List.mem_singleton_self _, rfl, rfl⟩ ?_
      exact ⟨codes "title", by decide +kernel, rfl⟩

end Pictograph
