import Pictograph.Proofs.Compile.Longest
import Pictograph.Proofs.Pattern.Steady

/-!
What a compiled pattern looks at ahead. The only look ahead is for the text selector, so whatever
else follows a text makes no difference to the ways of matching inside it.
-/

namespace Pictograph

theorem Fragment.steady {flavor : Flavor} {K : Language Nat} {p : Pattern}
    (h : Fragment flavor K p) (c : Nat) : Pattern.Steady c p.rests :=
  h.greedy.steady h.spells

namespace Pattern

theorem steady_around {flavor : Flavor} {a : Auxiliary} {b : Pattern} {K : Language Nat}
    (sound : a.Sound flavor) (h : Fragment flavor K b) (c : Class) :
    Steady vs15.toNat (concat (around a c b)).rests := by
  have body := h.steady vs15.toNat
  have tone := (sound.skinTone.steady vs15.toNat).opt
  have both := (sound.skinToneOrVs16.steady vs15.toNat).opt
  have joiner := sound.zwj.steady vs15.toNat
  have selector := sound.vs16.steady vs15.toNat
  have sign := joiner.concat_cons
    ((sound.genderSign.steady vs15.toNat).concat_cons selector.opt.concat_last)
  cases c with
  | multiDiversity => exact body
  | joined => exact body
  | normal => exact body
  | leadingGender =>
    exact (sound.manWomanPerson.steady _).concat_cons
      (tone.concat_cons (joiner.concat_cons body.concat_last))
  | trailingGenderWithVariant => exact body.concat_cons (both.concat_cons sign)
  | trailingGender => exact body.concat_cons (tone.concat_cons sign)
  | keycap =>
    exact body.concat_cons (selector.opt.concat_cons (sound.keycap.steady _).concat_last)
  | variantDiversity => exact body.concat_cons both.concat_last
  | diversity => exact body.concat_cons tone.concat_last
  | textDefault => exact body.concat_cons selector.concat_last
  | variant =>
    have look : Steady vs15.toNat (notAhead a.vs15).rests := by
      rw [sound.vs15]
      exact steady_notAhead _
    exact body.concat_cons (selector.alt look).group.concat_last

end Pattern

namespace Compile

variable {flavor : Flavor} {placed : List Placed} {a : Auxiliary}

theorem steady_restsOf (sound : a.Sound flavor) (c : Class) :
    Pattern.Steady vs15.toNat (restsOf flavor placed a c) := by
  unfold restsOf alternative
  cases e : body flavor placed c with
  | none =>
    intro s after _
    rfl
  | some b => exact Pattern.steady_around sound (fragment_body e).2 c

theorem steady_assembled (sound : a.Sound flavor) (ne : placed ≠ [])
    (full : ∀ p ∈ placed, p.sequence.points ≠ []) :
    Pattern.Steady vs15.toNat (assembled flavor placed a).pattern.rests := by
  have classes : Pattern.Steady vs15.toNat fun t =>
      Class.all.flatMap fun c => restsOf flavor placed a c t :=
    .flatMap Class.all (steady_restsOf sound)
  simpa only [← rests_assembled ne full] using classes

end Compile

/-- A pattern that runs is steady and uses something up wherever it matches, unless its table has no
entry; then it matches everywhere and uses up nothing. -/
theorem steady_or_idle {settings : CompilerSettings} {items : List TableItem} {c : CompiledPattern}
    {p : Pattern} (h : (compile settings items).result = .ok c) (runs : c.executable = .ok p) :
    (Pattern.Steady vs15.toNat p.rests ∧ ∀ t, ∀ r ∈ p.rests t, r.length < t.length) ∨
      ∀ t, p.rests t = [t] := by
  obtain ⟨entries, placed, a, entriesOk, sorted, auxiliary, -, full, rfl⟩ :=
    Compile.compile_eq_ok_iff.1 h
  have points : settings.flavor = .points := by
    by_contra other
    have flavor : (Compile.assembled settings.flavor placed a).flavor = settings.flavor := rfl
    rw [CompiledPattern.executable, flavor, if_neg other] at runs
    cases runs
  rw [points] at auxiliary runs
  have sound := Auxiliary.sound_of auxiliary
  rw [Compile.executable_assembled sound] at runs
  cases runs
  by_cases none : placed = []
  · rw [none]
    exact .inr fun t => rfl
  · exact .inl ⟨Compile.steady_assembled sound none full, Compile.lt_of_mem_rests sound none full⟩

end Pictograph
