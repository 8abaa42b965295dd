import Pictograph.Proofs.Compile.Completeness
import Pictograph.Proofs.Slots

/-!
Emoji of two people: 26 forms, the base and one for every pair of skin tones, each of them spelled
out by the templates and each recognised by the pattern of every table with the emoji.
-/

namespace Pictograph

namespace Entry.Paired

variable {e : Entry} {sameTone : Option Slots} {twoTones : Slots} {ss : List Sequence}

theorem eq_of_renderings (h : e.Paired sameTone twoTones) (hss : e.renderings = .ok ss) :
    ss = e.base :: placePairs.map (pairForm sameTone twoTones e.sorted) :=
  Except.ok.inj (hss.symm.trans h.renderings_eq)

theorem length_renderings (h : e.Paired sameTone twoTones) (hss : e.renderings = .ok ss) :
    ss.length = 26 := by
  rw [h.eq_of_renderings hss, List.length_cons, List.length_map]
  decide

theorem head?_renderings (h : e.Paired sameTone twoTones) (hss : e.renderings = .ok ss) :
    ss.head? = some e.base := by
  rw [h.eq_of_renderings hss, List.head?_cons]

theorem getElem?_renderings (h : e.Paired sameTone twoTones) (hss : e.renderings = .ok ss)
    (i j : Fin 5) :
    ss[1 + 5 * i.val + j.val]? = some (pairForm sameTone twoTones e.sorted (i, j)) := by
  have place : 1 + 5 * i.val + j.val = 5 * i.val + j.val + 1 := by omega
  rw [h.eq_of_renderings hss, place, List.getElem?_cons_succ, List.getElem?_map,
    getElem?_placePairs]
  rfl

theorem pairForm_injOn (two : 2 ≤ twoTones.count none) {sorted : Bool} {p q : Fin 5 × Fin 5}
    (hp : p.1 ≠ p.2) (hq : q.1 ≠ q.2)
    (same : (pairForm sameTone twoTones sorted p).points =
      (pairForm sameTone twoTones sorted q).points) : p = q := by
  simp only [pairForm, if_neg hp, if_neg hq] at same
  obtain ⟨first, later⟩ := Slots.eq_of_fill two same
  exact Prod.ext (toneAt_injective first) (toneAt_injective later)

theorem recognised {all : Bool} {items : List TableItem} {entries : List Entry}
    {c : CompiledPattern} (h : e.Paired sameTone twoTones) (hss : e.renderings = .ok ss)
    (compiled : (compile ⟨.points, all⟩ items).result = .ok c)
    (he : tableEntries items = .ok entries) (mem : e ∈ entries) :
    ∃ p, c.executable = .ok p ∧ ∀ s ∈ ss, p.fullMatches s.text = true := by
  obtain ⟨placed, p, sorted, -, executable, words⟩ :=
    exists_fullMatches_iff compiled he (List.ne_nil_of_mem mem)
  have shown : e.kind ≠ .keycap ∧ e.kind ≠ .textDefault := by
    rw [h.kind]
    decide
  have agrees : e.Agrees := by
    simp only [Agrees, h.kind]
  refine ⟨p, executable, fun s hs => (words s.points).2 ?_⟩
  exact mem_recognised_of_agrees sorted mem shown agrees hss s hs

end Entry.Paired

/-- A row of an emoji of two people stands for 26 sequences: the base, and for every pair of tones
the template with the first tone in its first slot and the second tone in the later ones, or for a
tone with itself the template for one tone with that tone everywhere. A picker does not show the
pairs of a sorted template with the lighter tone first. Two slots tell all pairs of two tones apart,
and a table with the row recognises all 26. -/
theorem pairs_of_tones {cells : Row.Cells} {base : Sequence} {sameTone : Option Slots}
    {twoTones : Slots} (row : Row.Paired cells base sameTone twoTones) :
    let cell := fun name => Value.member (codes name) cells
    let sorted := (cell "multi_diversity_base_different_is_sorted").truthy
    ∃ e ss, Entry.ofRow (.object cells) = .ok e ∧ e.renderings = .ok ss ∧ ss.length = 26 ∧
      ss.head? = some { base with shown := !(cell "exclude_from_picker").truthy } ∧
      (∀ i j : Fin 5, ss[1 + 5 * i.val + j.val]? = some
        { points :=
            if i = j then (sameTone.getD twoTones).fillAll (Entry.toneAt i)
            else twoTones.fill (Entry.toneAt i) (Entry.toneAt j)
          shown := !(sorted && decide (i < j)) }) ∧
      e.pickerSequences = .ok (ss.filter (·.shown)) ∧
      (2 ≤ twoTones.count none → ∀ i j i' j' : Fin 5, i ≠ j → i' ≠ j' →
        (ss[1 + 5 * i.val + j.val]?).map (·.points) =
          (ss[1 + 5 * i'.val + j'.val]?).map (·.points) → i = i' ∧ j = j') ∧
      ∀ all items entries c, (compile ⟨.points, all⟩ items).result = .ok c →
        tableEntries items = .ok entries → e ∈ entries →
        ∃ p, c.executable = .ok p ∧ ∀ s ∈ ss, p.fullMatches s.text = true := by
  intro cell sorted
  obtain ⟨e, read, paired, isBase, isSorted⟩ := row.ofRow
  obtain ⟨ss, hss⟩ : ∃ ss, e.renderings = .ok ss := ⟨_, paired.renderings_eq⟩
  have form := paired.getElem?_renderings hss
  rw [isSorted] at form
  refine ⟨e, ss, read, hss, paired.length_renderings hss, ?_, form, ?_, ?_, ?_⟩
  · rw [paired.head?_renderings hss, isBase]
  · simp only [Entry.pickerSequences, hss]
    rfl
  · intro two i j i' j' differ differ' same
    rw [form, form, Option.map_some, Option.map_some, Option.some_inj] at same
    exact Prod.mk.inj (Entry.Paired.pairForm_injOn two differ differ' same)
  · intro all items entries c compiled he mem
    exact paired.recognised hss compiled he mem

def twoWomen : Row.Cells :=
  [(codes "unicode", .text (codes "1f46d")), (codes "type", .text (codes "multi-diversity")),
    (codes "multi_diversity_base_same", .text (codes "1f46d-skintone")),
    (codes "multi_diversity_base_different",
      .text (codes "1f469-skintone-200d-1f91d-200d-1F469-SkinTone")),
    (codes "multi_diversity_base_different_is_sorted", .bool true)]

theorem twoWomen_pairs :
    ∃ e ss c p, Entry.ofRow (.object twoWomen) = .ok e ∧ e.renderings = .ok ss ∧
      ss.length = 26 ∧ ss[8]? = some ⟨['👩', '🏼', zwj, '🤝', zwj, '👩', '🏽'], false⟩ ∧
      ss[7]? = some ⟨['👭', '🏼'], true⟩ ∧
      (compile ⟨.points, false⟩ [.loose (.object twoWomen)]).result = .ok c ∧
      c.executable = .ok p ∧ ∀ s ∈ ss, p.fullMatches s.text = true := by
  have row : Row.Paired twoWomen ⟨['👭'], true⟩ (some [some '👭', none])
      [some '👩', none, some zwj, some '🤝', some zwj, some '👩', none] :=
    { points := by decide
      kind := by decide
      sameTone := ⟨codes "1f46d-skintone", rfl, by decide, by decide⟩
      twoTones := ⟨codes "1f469-skintone-200d-1f91d-200d-1F469-SkinTone", rfl, by decide, by decide⟩
      description := ⟨[], by decide⟩
      keywords := ⟨[], by decide⟩ }
  obtain ⟨e, ss, read, hss, length, -, form, -, -, recognised⟩ := pairs_of_tones row
  have entries : tableEntries [.loose (.object twoWomen)] = .ok [e] := by
    have part : TableItem.entries (.loose (.object twoWomen)) = .ok [e] := by
      rw [TableItem.entries, if_neg (by decide), read]
      rfl
    simp only [tableEntries, List.mapM_cons, List.mapM_nil, part]
    rfl
  have compiles :
      (compile ⟨.points, false⟩ [.loose (.object twoWomen)]).result.toOption.isSome = true := by
    decide +kernel
  match compiled : (compile ⟨.points, false⟩ [.loose (.object twoWomen)]).result with
  | .error f =>
    rw [compiled] at compiles
    cases compiles
  | .ok c =>
    obtain ⟨p, executable, whole⟩ :=
      recognised _ _ _ c compiled entries (List.mem_singleton_self e)
    exact ⟨e, ss, c, p, read, hss, length, form 1 2, form 1 1, rfl, executable, whole⟩

end Pictograph
