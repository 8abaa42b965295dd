import Pictograph.Proofs.Pattern.Found

/-!
Texts with their matches replaced. Whatever a pattern matches, also nothing at all, the gaps and
matches of a cut put together are the text, and to replace the matches is to put a new text in the
place of each match of the cut, from left to right.
-/

namespace Pictograph.Pattern

def joined (parts : List (Text × Text)) (last : Text) : Text :=
  parts.flatMap (fun part => part.1 ++ part.2) ++ last

theorem joined_cons (part : Text × Text) (parts : List (Text × Text)) (last : Text) :
    joined (part :: parts) last = part.1 ++ (part.2 ++ joined parts last) := by
  simp [joined]

/-- The cut with one more code value in front of its first gap. -/
def Cut.behind (c : Nat) : Cut → Cut
  | ⟨[], rest⟩ => ⟨[], c :: rest⟩
  | ⟨(gap, raw) :: parts, rest⟩ => ⟨(c :: gap, raw) :: parts, rest⟩

def Cut.after (raw : Text) (cut : Cut) : Cut := ⟨([], raw) :: cut.parts, cut.rest⟩

/-- The cut with an empty match in front of it, if that is the preferred one at the front of the
text. -/
def Cut.afterEmpty (p : Pattern) (t : Text) (cut : Cut) : Cut :=
  if p.prefersEmpty t then cut.after [] else cut

def Cut.fillM {m : Type → Type} [Monad m] (cut : Cut) (f : Text → m Text) : m Text := do
  let parts ← cut.parts.mapM fun part => do return (part.1, ← f part.2)
  return joined parts cut.rest

def located : Nat → List (Text × Text) → List Found
  | _, [] => []
  | place, (gap, raw) :: parts =>
    ⟨raw, place + gap.length⟩ :: located (place + gap.length + raw.length) parts

def cutFrom (p : Pattern) (place skip : Nat) (t : Text) : Cut :=
  cutAt (place + skip) (t.drop skip) (p.findFrom place skip t)

variable {p : Pattern}

theorem matches_cutAt (found : List Found) (place : Nat) (t : Text) :
    (cutAt place t found).parts.map (·.2) = found.map (·.text) := by
  induction found generalizing place t with
  | nil => rfl
  | cons f found ih =>
    rw [cutAt, List.map_cons, List.map_cons]
    dsimp only
    rw [ih]

theorem cutAt_cons {place c : Nat} {rest : Text} {found : List Found}
    (later : ∀ f ∈ found, place < f.start) :
    cutAt place (c :: rest) found = (cutAt (place + 1) rest found).behind c := by
  cases found with
  | nil => rfl
  | cons f more =>
    have first := later f List.mem_cons_self
    have gap : f.start - place = f.start - (place + 1) + 1 := by omega
    have used : f.start - (place + 1) + 1 + f.text.length =
      f.start - (place + 1) + f.text.length + 1 := by omega
    rw [cutAt, cutAt, gap, used]
    rfl

theorem lt_start_of_mem_findFrom {place skip : Nat} {t : Text} {f : Found}
    (h : f ∈ p.findFrom (place + 1) skip t) : place < f.start := by
  obtain ⟨k, -, start, -⟩ := mem_findFrom h
  omega

theorem cutAt_emptyAt (place : Nat) (t : Text) (found : List Found) :
    cutAt place t (p.emptyAt place t ++ found) = (cutAt place t found).afterEmpty p t := by
  unfold emptyAt Cut.afterEmpty
  split
  · have stop : (⟨[], place⟩ : Found).stop = place := rfl
    rw [List.singleton_append, cutAt, stop]
    simp [Cut.after]
  · rfl

theorem length_cons_take {c n : Nat} {rest : Text} (h : p.advance? (c :: rest) = some n) :
    (c :: rest.take n).length = n + 1 := by
  rw [advance?_eq, Option.map_eq_some_iff] at h
  obtain ⟨r, -, rfl⟩ := h
  simp only [List.length_cons, List.length_take]
  omega

theorem cutFrom_nil (p : Pattern) (place : Nat) :
    p.cutFrom place 0 [] = Cut.afterEmpty p [] ⟨[], []⟩ := by
  have only := cutAt_emptyAt (p := p) place [] []
  rwa [List.append_nil] at only

theorem cutFrom_skip (p : Pattern) (place skip c : Nat) (rest : Text) :
    p.cutFrom place (skip + 1) (c :: rest) = p.cutFrom (place + 1) skip rest := by
  have start : place + (skip + 1) = place + 1 + skip := by omega
  rw [cutFrom, cutFrom, findFrom, start, List.drop_succ_cons]

theorem cutFrom_cons_of_some {c n : Nat} {rest : Text} (h : p.advance? (c :: rest) = some n)
    (place : Nat) :
    p.cutFrom place 0 (c :: rest) =
      ((p.cutFrom (place + 1) n rest).after (c :: rest.take n)).afterEmpty p (c :: rest) := by
  have length := length_cons_take h
  have stop : (⟨c :: rest.take n, place⟩ : Found).stop = place + 1 + n := by
    rw [Found.stop, length]
    dsimp only
    omega
  rw [cutFrom, findFrom, h, List.drop_zero, Nat.add_zero, cutAt_emptyAt, cutAt, stop, cutFrom,
    length, Nat.sub_self, Nat.zero_add, List.drop_succ_cons]
  rfl

theorem cutFrom_cons_of_none {c : Nat} {rest : Text} (h : p.advance? (c :: rest) = none)
    (place : Nat) :
    p.cutFrom place 0 (c :: rest) =
      ((p.cutFrom (place + 1) 0 rest).behind c).afterEmpty p (c :: rest) := by
  rw [cutFrom, findFrom, h, List.drop_zero, Nat.add_zero, cutAt_emptyAt]
  dsimp only
  rw [cutAt_cons fun f hf => lt_start_of_mem_findFrom hf]
  rfl

/-- Matches that stand in a text where they say, in order and apart. -/
structure Standing (t : Text) (found : List Found) : Prop where
  apart : found.Pairwise fun f g => f.stop ≤ g.start
  there : ∀ f ∈ found, f.start ≤ t.length ∧ f.text <+: t.drop f.start

theorem Standing.tail {t : Text} {f : Found} {more : List Found} (h : Standing t (f :: more)) :
    Standing t more :=
  ⟨(List.pairwise_cons.1 h.apart).2, fun g hg => h.there g (List.mem_cons_of_mem f hg)⟩

theorem cutAt_drop {t : Text} {place : Nat} {f : Found} (after : place ≤ f.start)
    (more : List Found) :
    cutAt place (t.drop place) (f :: more) =
      ⟨((t.drop place).take (f.start - place), f.text) :: (cutAt f.stop (t.drop f.stop) more).parts,
        (cutAt f.stop (t.drop f.stop) more).rest⟩ := by
  have behind : place + (f.start - place + f.text.length) = f.stop := by
    rw [Found.stop]
    omega
  rw [cutAt, List.drop_drop, behind]

theorem Standing.joined_cutAt {t : Text} {found : List Found} (h : Standing t found) {place : Nat}
    (after : ∀ f ∈ found, place ≤ f.start) :
    joined (cutAt place (t.drop place) found).parts (cutAt place (t.drop place) found).rest =
      t.drop place := by
  induction found generalizing place with
  | nil => rfl
  | cons f more ih =>
    have first := after f List.mem_cons_self
    have later := ih h.tail (List.pairwise_cons.1 h.apart).1
    obtain ⟨r, split⟩ := (h.there f List.mem_cons_self).2
    have behind : t.drop f.stop = r := by
      rw [Found.stop, ← List.drop_drop, ← split, List.drop_left]
    have here : (t.drop place).drop (f.start - place) = f.text ++ r := by
      rw [List.drop_drop, Nat.add_sub_cancel' first, split]
    rw [cutAt_drop first, joined_cons, later, behind]
    dsimp only
    rw [← here, List.take_append_drop]

theorem Standing.located_cutAt {t : Text} {found : List Found} (h : Standing t found) {place : Nat}
    (after : ∀ f ∈ found, place ≤ f.start) :
    located place (cutAt place (t.drop place) found).parts = found := by
  induction found generalizing place with
  | nil => rfl
  | cons f more ih =>
    have first := after f List.mem_cons_self
    have later := ih h.tail (List.pairwise_cons.1 h.apart).1
    have inside := (h.there f List.mem_cons_self).1
    have gap : place + ((t.drop place).take (f.start - place)).length = f.start := by
      rw [List.length_take, List.length_drop]
      omega
    rw [cutAt_drop first, located, gap]
    exact congrArg (f :: ·) later

variable {m : Type → Type} [Monad m] [LawfulMonad m]

theorem fillM_cons (f : Text → m Text) (gap raw : Text) (cut : Cut) :
    Cut.fillM ⟨(gap, raw) :: cut.parts, cut.rest⟩ f = do
      return gap ++ ((← f raw) ++ (← cut.fillM f)) := by
  simp [Cut.fillM, joined_cons]

theorem fillM_after (f : Text → m Text) (raw : Text) (cut : Cut) :
    (cut.after raw).fillM f = do return (← f raw) ++ (← cut.fillM f) :=
  fillM_cons f [] raw cut

theorem fillM_afterEmpty (f : Text → m Text) (t : Text) (cut : Cut) :
    (cut.afterEmpty p t).fillM f = do
      let front ← if p.prefersEmpty t then f [] else pure []
      return front ++ (← cut.fillM f) := by
  unfold Cut.afterEmpty
  split
  · exact fillM_after f [] cut
  · simp

theorem fillM_behind (f : Text → m Text) (c : Nat) (cut : Cut) :
    (cut.behind c).fillM f = do return c :: (← cut.fillM f) := by
  obtain ⟨parts, rest⟩ := cut
  cases parts with
  | nil => simp [Cut.fillM, Cut.behind, joined]
  | cons part parts => simp [Cut.fillM, Cut.behind, joined_cons]

theorem fillM_nil (f : Text → m Text) (rest : Text) : Cut.fillM ⟨[], rest⟩ f = pure rest := by
  simp [Cut.fillM, joined]

theorem replaceFrom_eq (p : Pattern) (f : Text → m Text) (place skip : Nat) (t : Text) :
    p.replaceFrom f skip t = (p.cutFrom place skip t).fillM f := by
  induction t generalizing place skip with
  | nil =>
    cases skip with
    | zero =>
      rw [cutFrom_nil, replaceFrom, fillM_afterEmpty, fillM_nil]
      simp
    | succ skip => exact (fillM_nil f []).symm
  | cons c rest ih =>
    cases skip with
    | succ skip => rw [cutFrom_skip, replaceFrom, ih]
    | zero =>
      rw [replaceFrom]
      cases advance : p.advance? (c :: rest) with
      | some n =>
        rw [cutFrom_cons_of_some advance, fillM_afterEmpty, fillM_after, ← ih]
        simp
      | none =>
        rw [cutFrom_cons_of_none advance, fillM_afterEmpty, fillM_behind, ← ih]
        simp

/-- To replace the matches of a text is to fill in its cut. -/
theorem replaceM_eq (p : Pattern) (f : Text → m Text) (t : Text) :
    p.replaceM f t = (p.cut t).fillM f :=
  replaceFrom_eq p f 0 0 t

end Pictograph.Pattern
