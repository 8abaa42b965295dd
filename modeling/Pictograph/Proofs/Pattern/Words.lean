import Mathlib.Computability.Language
import Pictograph.Pattern.Basic

/-!
The words of a pattern. A pattern spells a language before a rest if the parts it can use up there
are the words of it; only a look ahead makes the rest matter. Sequences, alternatives and optional
parts are products, sums and sums with the empty word.
-/

namespace Pictograph.Pattern

/-- In front of every rest, the pattern uses up the words that count there and no others. -/
def SpellsBefore (p : Pattern) (words : Text → Language Nat) : Prop :=
  ∀ w r, r ∈ p.rests (w ++ r) ↔ w ∈ words r

def letters (s : Nat → Prop) : Language Nat := {w | ∃ c, s c ∧ w = [c]}

/-- The pattern uses up the words of a language, whatever follows. -/
def Spells (p : Pattern) (words : Language Nat) : Prop := p.SpellsBefore fun _ => words

@[simp] theorem mem_word {v w : Text} : w ∈ ({v} : Language Nat) ↔ w = v := Iff.rfl

@[simp] theorem mem_letters {s : Nat → Prop} {w : Text} :
    w ∈ letters s ↔ ∃ c, s c ∧ w = [c] := Iff.rfl

variable {p q : Pattern} {L M : Text → Language Nat} {K : Language Nat}

theorem SpellsBefore.mem_rests (h : p.SpellsBefore L) {t r : Text} :
    r ∈ p.rests t ↔ ∃ w ∈ L r, t = w ++ r := by
  constructor
  · intro hr
    obtain ⟨w, rfl⟩ := suffix_of_mem_rests hr
    exact ⟨w, (h w r).1 hr, rfl⟩
  · rintro ⟨w, hw, rfl⟩
    exact (h w r).2 hw

theorem spellsBefore_of_mem_rests (h : ∀ t r, r ∈ p.rests t ↔ ∃ w ∈ L r, t = w ++ r) :
    p.SpellsBefore L := by
  intro w r
  rw [h]
  constructor
  · rintro ⟨w', hw', e⟩
    rwa [List.append_cancel_right e]
  · intro hw
    exact ⟨w, hw, rfl⟩

theorem SpellsBefore.congr (h : p.SpellsBefore L) (same : ∀ r, L r = M r) : p.SpellsBefore M := by
  intro w r
  rw [h, same]

theorem Spells.fullMatches_iff (h : p.Spells K) {t : Text} : p.fullMatches t = true ↔ t ∈ K := by
  have whole := h t []
  rwa [List.append_nil, ← Pattern.fullMatches_iff] at whole

theorem spells_symbol (c : Nat) : (symbol c).Spells {[c]} := by
  apply spellsBefore_of_mem_rests
  intro t r
  cases t with
  | nil => simp [rests]
  | cons d t =>
    by_cases e : c = d
    · simp [rests, e, eq_comm]
    · simp [rests, e, Ne.symm e]

theorem spells_oneOf (items : List ClassItem) :
    (oneOf items).Spells (letters fun c => items.any (·.has c) = true) := by
  apply spellsBefore_of_mem_rests
  intro t r
  cases t with
  | nil => simp [rests]
  | cons d t =>
    simp only [rests]
    constructor
    · intro hr
      split at hr
      · next hd => exact ⟨[d], ⟨d, hd, rfl⟩, by simp [List.mem_singleton.1 hr]⟩
      · simp at hr
    · rintro ⟨w, ⟨c, hc, rfl⟩, e⟩
      obtain ⟨rfl, rfl⟩ := List.cons.inj e
      simp [hc]

theorem Spells.seq (hp : p.Spells K) (hq : q.SpellsBefore M) :
    (seq p q).SpellsBefore fun r => K * M r := by
  apply spellsBefore_of_mem_rests
  intro t r
  simp only [rests, List.mem_flatMap, hp.mem_rests, hq.mem_rests, Language.mem_mul]
  constructor
  · rintro ⟨m, ⟨u, hu, rfl⟩, v, hv, rfl⟩
    exact ⟨u ++ v, ⟨u, hu, v, hv, rfl⟩, by simp⟩
  · rintro ⟨w, ⟨u, hu, v, hv, rfl⟩, rfl⟩
    exact ⟨v ++ r, ⟨u, hu, by simp⟩, v, hv, rfl⟩

theorem SpellsBefore.alt (hp : p.SpellsBefore L) (hq : q.SpellsBefore M) :
    (alt p q).SpellsBefore fun r => L r + M r := by
  intro w r
  rw [rests, List.mem_append, hp, hq, Language.mem_add]

theorem SpellsBefore.group (hp : p.SpellsBefore L) : (group p).SpellsBefore L := hp

theorem SpellsBefore.opt (hp : p.SpellsBefore L) : (opt p).SpellsBefore fun r => L r + 1 := by
  intro w r
  rw [rests, List.mem_append, hp, Language.mem_add, Language.mem_one, List.mem_singleton]
  simp

theorem Spells.opt (hp : p.Spells K) : (Pattern.opt p).Spells (K + 1) := SpellsBefore.opt hp

theorem spellsBefore_notAhead (c : Nat) :
    (notAhead (symbol c)).SpellsBefore fun r => if r.head? = some c then 0 else 1 := by
  apply spellsBefore_of_mem_rests
  intro t r
  have ahead : ((symbol c).rests t).isEmpty = !decide (t.head? = some c) := by
    cases t with
    | nil => simp [rests]
    | cons d t => by_cases e : c = d <;> simp [rests, e, eq_comm]
  rw [rests, ahead]
  by_cases hc : t.head? = some c
  · simp only [hc, decide_true, Bool.not_true, Bool.false_eq_true, ↓reduceIte, List.not_mem_nil,
      false_iff, not_exists, not_and]
    rintro w hw rfl
    split at hw
    · exact hw
    · next hr =>
      rw [Language.mem_one] at hw
      subst hw
      exact hr hc
  · simp only [hc, decide_false, Bool.not_false, ↓reduceIte, List.mem_singleton]
    constructor
    · rintro rfl
      exact ⟨[], by simp [hc, Language.mem_one], rfl⟩
    · rintro ⟨w, hw, rfl⟩
      split at hw
      · exact hw.elim
      · rw [Language.mem_one] at hw
        simp [hw]

theorem rests_concat_cons (p : Pattern) (ps : List Pattern) (t : Text) :
    (concat (p :: ps)).rests t = (p.rests t).flatMap (concat ps).rests := by
  cases ps with
  | nil => simp [concat, rests]
  | cons q ps => rfl

theorem rests_anyOf {ps : List Pattern} (ne : ps ≠ []) (t : Text) :
    (anyOf ps).rests t = ps.flatMap (·.rests t) := by
  induction ps with
  | nil => exact absurd rfl ne
  | cons p ps ih =>
    cases ps with
    | nil => simp [anyOf]
    | cons q ps =>
      have step : anyOf (p :: q :: ps) = alt p (anyOf (q :: ps)) := rfl
      rw [step, rests, ih (by simp)]
      rfl

theorem spellsBefore_anyOf {α : Type} {l : List α} (ne : l ≠ []) {f : α → Pattern}
    {N : α → Text → Language Nat} (h : ∀ a ∈ l, (f a).SpellsBefore (N a)) (w r : Text) :
    r ∈ (anyOf (l.map f)).rests (w ++ r) ↔ ∃ a ∈ l, w ∈ N a r := by
  rw [rests_anyOf (by simpa using ne), List.flatMap_map, List.mem_flatMap]
  constructor
  · rintro ⟨a, ha, hr⟩
    exact ⟨a, ha, (h a ha w r).1 hr⟩
  · rintro ⟨a, ha, hw⟩
    exact ⟨a, ha, (h a ha w r).2 hw⟩

theorem SpellsBefore.concat_last (hp : p.SpellsBefore M) : (concat [p]).SpellsBefore M := hp

theorem Spells.concat_cons {ps : List Pattern} (hp : p.Spells K)
    (hps : (concat ps).SpellsBefore M) : (concat (p :: ps)).SpellsBefore fun r => K * M r := by
  intro w r
  rw [rests_concat_cons]
  exact hp.seq hps w r

theorem word_cons (c : Nat) (w : Text) : ({c :: w} : Language Nat) = {[c]} * {w} := by
  ext v
  simp [Language.mem_mul, eq_comm]

theorem spells_concat_symbols (w : Text) (last : Pattern) (h : last.Spells K) :
    (concat (w.map symbol ++ [last])).Spells ({w} * K) := by
  induction w with
  | nil =>
    have one : ({[]} : Language Nat) = 1 := rfl
    simpa [concat, one] using h
  | cons c w ih =>
    refine ((spells_symbol c).concat_cons ih).congr fun _ => ?_
    rw [word_cons c w, mul_assoc]

/-- Each way of matching uses up less than those tried before it. -/
def Greedy (p : Pattern) : Prop := ∀ t, (p.rests t).Pairwise fun r r' => r.length < r'.length

def Single (p : Pattern) : Prop := ∀ t, (p.rests t).length ≤ 1

theorem Single.greedy (h : p.Single) : p.Greedy := by
  intro t
  have short := h t
  match e : p.rests t with
  | [] => simp
  | [r] => simp
  | r :: r' :: _ => simp [e] at short

theorem single_symbol (c : Nat) : (symbol c).Single := by
  intro t
  cases t with
  | nil => simp [rests]
  | cons d t => by_cases e : c = d <;> simp [rests, e]

theorem single_oneOf (items : List ClassItem) : (oneOf items).Single := by
  intro t
  cases t with
  | nil => simp [rests]
  | cons d t =>
    simp only [rests]
    split <;> simp

theorem Single.concat_cons {ps : List Pattern} (hp : p.Single) (hps : (concat ps).Single) :
    (concat (p :: ps)).Single := by
  intro t
  rw [rests_concat_cons]
  have short := hp t
  match e : p.rests t with
  | [] => simp
  | [r] => simpa using hps r
  | r :: r' :: _ => simp [e] at short

theorem single_concat_symbols (w : Text) {last : Pattern} (h : last.Single) :
    (concat (w.map symbol ++ [last])).Single := by
  induction w with
  | nil => exact h
  | cons c w ih => exact (single_symbol c).concat_cons ih

end Pictograph.Pattern
