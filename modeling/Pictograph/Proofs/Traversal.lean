import Mathlib.Data.List.Forall2

/-!
Steps over lists that may fail. Going through a list succeeds exactly if every step does, and then
gives the results of the steps in order.
-/

namespace Pictograph.Traversal

variable {α β ε : Type} {f : α → Except ε β} {l : List α}

theorem bind_eq_ok {x : Except ε α} {g : α → Except ε β} {b : β} :
    x >>= g = .ok b ↔ ∃ a, x = .ok a ∧ g a = .ok b := by
  cases x with
  | error e => simp [bind, Except.bind]
  | ok a => simp [bind, Except.bind]

theorem bind_eq_error {x : Except ε α} {g : α → Except ε β} {e : ε} :
    x >>= g = .error e ↔ x = .error e ∨ ∃ a, x = .ok a ∧ g a = .error e := by
  cases x with
  | error e' => simp [bind, Except.bind]
  | ok a => simp [bind, Except.bind]

theorem check_eq_ok {c : Prop} [Decidable c] {e : ε} {γ : Type} {k : γ → Except ε β}
    {next : Except ε β} {b : β} :
    (if c then throw e >>= k else next) = .ok b ↔ ¬ c ∧ next = .ok b := by
  by_cases failed : c
  · rw [if_pos failed]
    exact ⟨nofun, fun h => absurd failed h.1⟩
  · rw [if_neg failed]
    exact ⟨fun h => ⟨failed, h⟩, fun h => h.2⟩

theorem mapM_eq_ok_iff {out : List β} :
    l.mapM f = .ok out ↔ List.Forall₂ (fun a b => f a = .ok b) l out := by
  induction l generalizing out with
  | nil => simp [pure, Except.pure, eq_comm]
  | cons a l ih =>
    rw [List.mapM_cons, bind_eq_ok, List.forall₂_cons_left_iff]
    constructor
    · rintro ⟨b, hb, h⟩
      obtain ⟨rest, hrest, h⟩ := bind_eq_ok.1 h
      refine ⟨b, rest, hb, ih.1 hrest, ?_⟩
      simpa [pure, Except.pure] using h.symm
    · rintro ⟨b, rest, hb, hrest, rfl⟩
      exact ⟨b, hb, bind_eq_ok.2 ⟨rest, ih.2 hrest, rfl⟩⟩

theorem mapM_eq_ok {g : α → β} (h : ∀ a ∈ l, f a = .ok (g a)) : l.mapM f = .ok (l.map g) := by
  rw [mapM_eq_ok_iff, List.forall₂_map_right_iff, List.forall₂_same]
  exact h

theorem mapM_congr {g : α → Except ε β} (h : ∀ a ∈ l, f a = g a) : l.mapM f = l.mapM g := by
  induction l with
  | nil => rfl
  | cons a l ih =>
    rw [List.forall_mem_cons] at h
    rw [List.mapM_cons, List.mapM_cons, h.1, ih h.2]

theorem mem_of_mapM_eq_ok {out : List β} (h : l.mapM f = .ok out) {b : β} :
    b ∈ out ↔ ∃ a ∈ l, f a = .ok b := by
  rw [mapM_eq_ok_iff] at h
  induction h with
  | nil => simp
  | @cons a c l out hac _ ih =>
    simp only [List.mem_cons, ih, exists_eq_or_imp, hac, Except.ok.injEq]
    exact or_congr_left eq_comm

theorem ok_of_mapM_eq_ok {out : List β} (h : l.mapM f = .ok out) {a : α} (ha : a ∈ l) :
    ∃ b ∈ out, f a = .ok b := by
  rw [mapM_eq_ok_iff] at h
  induction h with
  | nil => simp at ha
  | @cons a' c l out hac _ ih =>
    rcases List.mem_cons.1 ha with rfl | ha
    · exact ⟨c, List.mem_cons_self, hac⟩
    · obtain ⟨b, hb, hab⟩ := ih ha
      exact ⟨b, List.mem_cons_of_mem c hb, hab⟩

theorem exists_mapM_eq_ok_iff : (∃ out, l.mapM f = .ok out) ↔ ∀ a ∈ l, ∃ b, f a = .ok b := by
  constructor
  · intro h a ha
    obtain ⟨out, h⟩ := h
    obtain ⟨b, -, ok⟩ := ok_of_mapM_eq_ok h ha
    exact ⟨b, ok⟩
  · intro h
    induction l with
    | nil => exact ⟨[], rfl⟩
    | cons a l ih =>
      obtain ⟨b, hb⟩ := h a List.mem_cons_self
      obtain ⟨out, hout⟩ := ih fun c hc => h c (List.mem_cons_of_mem a hc)
      exact ⟨b :: out, mapM_eq_ok_iff.2 (.cons hb (mapM_eq_ok_iff.1 hout))⟩

theorem mapM_eq_error_iff {e : ε} : l.mapM f = .error e ↔
    ∃ before a after, l = before ++ a :: after ∧ (∀ b ∈ before, ∃ c, f b = .ok c) ∧
      f a = .error e := by
  constructor
  · intro h
    induction l with
    | nil => cases h
    | cons a l ih =>
      rw [List.mapM_cons] at h
      cases first : f a with
      | error e' =>
        rw [first] at h
        cases h
        exact ⟨[], a, l, rfl, by simp, first⟩
      | ok b =>
        rw [first] at h
        cases rest : l.mapM f with
        | ok out =>
          rw [rest] at h
          cases h
        | error e' =>
          rw [rest] at h
          cases h
          obtain ⟨before, a', after, rfl, steps, fault⟩ := ih rest
          refine ⟨a :: before, a', after, rfl, ?_, fault⟩
          exact List.forall_mem_cons.2 ⟨⟨b, first⟩, steps⟩
  · intro h
    obtain ⟨before, a, after, rfl, steps, fault⟩ := h
    obtain ⟨out, ok⟩ := exists_mapM_eq_ok_iff.2 steps
    rw [List.mapM_append, ok, List.mapM_cons, fault]
    rfl

theorem map_mapM {γ : Type} (g : β → γ) (f : α → Except ε β) (l : List α) :
    (l.mapM f).map (List.map g) = l.mapM fun a => (f a).map g := by
  induction l with
  | nil => rfl
  | cons a l ih =>
    rw [List.mapM_cons, List.mapM_cons, ← ih]
    cases f a with
    | error e => rfl
    | ok b => cases l.mapM f <;> rfl

theorem forM_eq_ok_iff {check : α → Except ε Unit} :
    l.forM check = .ok () ↔ ∀ a ∈ l, check a = .ok () := by
  induction l with
  | nil => simp [pure, Except.pure]
  | cons a l ih =>
    have step : (a :: l).forM check = (check a >>= fun _ => l.forM check) := rfl
    rw [step, bind_eq_ok, List.forall_mem_cons, ← ih]
    constructor
    · rintro ⟨⟨⟩, ha, hl⟩
      exact ⟨ha, hl⟩
    · rintro ⟨ha, hl⟩
      exact ⟨(), ha, hl⟩

/-- The first member of a list with a property. -/
def First (p : α → Prop) (l : List α) (a : α) : Prop :=
  ∃ before after, l = before ++ a :: after ∧ (∀ b ∈ before, ¬ p b) ∧ p a

section First

variable {p : α → Prop} {a : α} {e : ε}

theorem First.mem (h : First p l a) : a ∈ l := by
  obtain ⟨before, after, rfl, -, -⟩ := h
  simp

theorem First.congr {q : α → Prop} (h : First p l a) (same : ∀ b ∈ l, p b ↔ q b) : First q l a := by
  obtain ⟨before, after, rfl, earlier, here⟩ := h
  refine ⟨before, after, rfl, fun b hb => ?_, (same a (by simp)).1 here⟩
  exact fun hq => earlier b hb ((same b (by simp [hb])).2 hq)

theorem first_congr {q : α → Prop} (same : ∀ b ∈ l, p b ↔ q b) : First p l a ↔ First q l a :=
  ⟨fun h => h.congr same, fun h => h.congr fun b hb => (same b hb).symm⟩

theorem find?_eq_some_iff_first {q : α → Bool} :
    l.find? q = some a ↔ First (fun b => q b = true) l a := by
  rw [List.find?_eq_some_iff_append]
  constructor
  · intro h
    obtain ⟨here, before, after, rfl, earlier⟩ := h
    exact ⟨before, after, rfl, fun b hb => by simpa using earlier b hb, here⟩
  · intro h
    obtain ⟨before, after, rfl, earlier, here⟩ := h
    exact ⟨here, before, after, rfl, fun b hb => by simpa using earlier b hb⟩

theorem first_filter {q : α → Bool} :
    First p (l.filter q) a ↔ First (fun b => q b = true ∧ p b) l a := by
  constructor
  · intro h
    obtain ⟨done, rest, parts, earlier, here⟩ := h
    obtain ⟨before, tail, rfl, rfl, later⟩ := List.filter_eq_append_iff.1 parts
    obtain ⟨skipped, after, rfl, none, chosen, -⟩ := List.filter_eq_cons_iff.1 later
    refine ⟨before ++ skipped, after, (List.append_assoc before skipped (a :: after)).symm, ?_,
      chosen, here⟩
    intro b hb both
    rcases List.mem_append.1 hb with hb | hb
    · exact earlier b (List.mem_filter.2 ⟨hb, both.1⟩) both.2
    · exact none b hb both.1
  · intro h
    obtain ⟨before, after, rfl, earlier, chosen, here⟩ := h
    refine ⟨before.filter q, after.filter q, ?_, fun b hb => ?_, here⟩
    · rw [List.filter_append, List.filter_cons_of_pos chosen]
    · obtain ⟨hb, chosen⟩ := List.mem_filter.1 hb
      exact fun hp => earlier b hb ⟨chosen, hp⟩

/-- Going through a list fails at the first member for which the step fails. -/
theorem mapM_eq_error_iff_first (h : ∀ a ∈ l, (∃ b, f a = .ok b) ↔ ¬ p a) :
    l.mapM f = .error e ↔ ∃ a, First p l a ∧ f a = .error e := by
  rw [mapM_eq_error_iff]
  constructor
  · intro failed
    obtain ⟨before, a, after, rfl, steps, fault⟩ := failed
    refine ⟨a, ⟨before, after, rfl, fun b hb => (h b (by simp [hb])).1 (steps b hb), ?_⟩, fault⟩
    by_contra fine
    obtain ⟨b, ok⟩ := (h a (by simp)).2 fine
    rw [fault] at ok
    cases ok
  · intro failed
    obtain ⟨a, ⟨before, after, rfl, earlier, -⟩, fault⟩ := failed
    exact ⟨before, a, after, rfl, fun b hb => (h b (by simp [hb])).2 (earlier b hb), fault⟩

theorem mapM_eq_error_iff_first_error :
    l.mapM f = .error e ↔ ∃ a, First (fun b => ∃ e, f b = .error e) l a ∧ f a = .error e := by
  refine mapM_eq_error_iff_first fun a _ => ?_
  cases f a <;> simp

theorem forM_eq_map_mapM (check : α → Except ε Unit) (l : List α) :
    l.forM check = (l.mapM check).map fun _ => () := by
  induction l with
  | nil => rfl
  | cons a l ih =>
    have step : (a :: l).forM check = (check a >>= fun _ => l.forM check) := rfl
    rw [step, ih, List.mapM_cons]
    cases check a with
    | error e => rfl
    | ok _ => cases l.mapM check <;> rfl

theorem forM_eq_error_iff_first {check : α → Except ε Unit}
    (h : ∀ a ∈ l, check a = .ok () ↔ ¬ p a) :
    l.forM check = .error e ↔ ∃ a, First p l a ∧ check a = .error e := by
  rw [← mapM_eq_error_iff_first (f := check), forM_eq_map_mapM]
  · cases l.mapM check <;> simp [Except.map]
  · intro a ha
    rw [← h a ha]
    exact ⟨fun ⟨_, ok⟩ => ok, fun ok => ⟨(), ok⟩⟩

end First

def FailsWith (p : ε → Prop) (x : Except ε α) : Prop := ∀ e, x = .error e → p e

namespace FailsWith

variable {p : ε → Prop} {x : Except ε α}

theorem ok (p : ε → Prop) (a : α) : FailsWith p (.ok a) := by
  intro e h
  cases h

theorem error {e : ε} (h : p e) : FailsWith p (.error e : Except ε α) := by
  intro e' he
  cases he
  exact h

theorem mono {q : ε → Prop} (h : FailsWith p x) (sub : ∀ e, p e → q e) : FailsWith q x :=
  fun e he => sub e (h e he)

theorem bind {g : α → Except ε β} (hx : FailsWith p x)
    (hg : ∀ a, x = .ok a → FailsWith p (g a)) : FailsWith p (x >>= g) := by
  cases x with
  | error e => exact error (hx e rfl)
  | ok a => exact hg a rfl

theorem map {g : α → β} (hx : FailsWith p x) : FailsWith p (x.map g) := by
  cases x with
  | error e => exact error (hx e rfl)
  | ok a => exact ok p (g a)

theorem mapM (h : ∀ a ∈ l, FailsWith p (f a)) : FailsWith p (l.mapM f) := by
  intro e he
  obtain ⟨before, a, after, rfl, -, fault⟩ := mapM_eq_error_iff.1 he
  exact h a (by simp) e fault

theorem forM {check : α → Except ε Unit} (h : ∀ a ∈ l, FailsWith p (check a)) :
    FailsWith p (l.forM check) := by
  induction l with
  | nil => exact ok p ()
  | cons a l ih =>
    have step : (a :: l).forM check = (check a >>= fun _ => l.forM check) := rfl
    rw [step]
    exact (h a List.mem_cons_self).bind fun _ _ => ih fun b hb => h b (List.mem_cons_of_mem a hb)

end FailsWith

end Pictograph.Traversal
