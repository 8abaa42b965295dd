import Pictograph.Proofs.Json.Numeral
import Pictograph.Proofs.Log.Fields
import Pictograph.Proofs.Traversal

/-!
Lines of a log. The JSON text of a value has no control character, so an event is written on one
line; and there is a line for every event whose time, message and fields can be written.
-/

namespace Pictograph

namespace Text

variable {s t : Text}

@[simp] theorem inline_append : Inline (s ++ t) ↔ Inline s ∧ Inline t := List.forall_mem_append

theorem Inline.notMem_lineFeed (h : Inline t) : 0x0A ∉ t := fun hc => absurd (h _ hc) (by decide)

theorem Inline.notMem_carriageReturn (h : Inline t) : 0x0D ∉ t :=
  fun hc => absurd (h _ hc) (by decide)

theorem inline_join {sep : Text} {parts : List Text} (hsep : Inline sep)
    (h : ∀ t ∈ parts, Inline t) : Inline (join sep parts) := by
  induction parts with
  | nil => exact List.forall_mem_nil _
  | cons t rest ih =>
    obtain ⟨first, later⟩ := List.forall_mem_cons.1 h
    cases rest with
    | nil => rwa [join, List.intercalate_singleton]
    | cons u rest =>
      rw [join, List.intercalate_cons_cons, inline_append, inline_append]
      exact ⟨⟨first, hsep⟩, ih later⟩

theorem inline_of_isNumeral (h : Json.isNumeral t = true) : Inline t := by
  have printed : Inline Json.alphabet := by decide
  exact fun c hc => printed c (Json.mem_alphabet h c hc)

end Text

namespace Value

open Text

theorem inline_jsonString (t : Text) : Inline (jsonString t) := by
  simp only [jsonString, inline_append]
  refine ⟨⟨by decide, fun d hd => ?_⟩, by decide⟩
  obtain ⟨c, -, hd⟩ := List.mem_flatMap.1 hd
  exact le_of_mem_jsonChar hd

theorem inline_jsonFloat (x : Float) : Inline (jsonFloat x) := by
  unfold jsonFloat
  split
  · decide
  · split <;> decide
  · next finite => exact inline_of_isNumeral (Json.isNumeral_text finite)

mutual

theorem inline_json : ∀ v : Value, Inline (json v)
  | .null => by decide
  | .bool true => by decide
  | .bool false => by decide
  | .int n => inline_of_isNumeral (Json.isNumeral_ofInt n)
  | .float x => inline_jsonFloat x
  | .text t => inline_jsonString t
  | .list items => by
    simp only [json, inline_append]
    exact ⟨⟨by decide, inline_jsonItems items⟩, by decide⟩
  | .object members => by
    simp only [json, inline_append]
    exact ⟨⟨by decide, inline_jsonMembers members⟩, by decide⟩

theorem inline_jsonItems : ∀ items : List Value, Inline (jsonItems items)
  | [] => by decide
  | [v] => inline_json v
  | v :: w :: rest => by
    simp only [jsonItems, inline_append]
    exact ⟨⟨inline_json v, by decide⟩, inline_jsonItems (w :: rest)⟩

theorem inline_jsonMembers : ∀ members : List (Text × Value), Inline (jsonMembers members)
  | [] => by decide
  | [(name, v)] => by
    simp only [jsonMembers, inline_append]
    exact ⟨⟨inline_jsonString name, by decide⟩, inline_json v⟩
  | (name, v) :: m :: rest => by
    simp only [jsonMembers, inline_append]
    exact ⟨⟨⟨⟨inline_jsonString name, by decide⟩, inline_json v⟩, by decide⟩,
      inline_jsonMembers (m :: rest)⟩

end

end Value

namespace Log

variable {m : Moment} {e : Event} {account : Option Text} {time message line : Text}

theorem inline_datum {d : Datum} {t : Text} (h : d.json = .ok t) : t.Inline := by
  cases d with
  | value v =>
    obtain ⟨-, rfl⟩ := write_eq_ok_iff.1 h
    exact Value.inline_json v
  | other json =>
    cases json with
    | error f => cases h
    | ok printed =>
      cases h
      exact printed.2

theorem lineAt_eq_ok_iff : lineAt m e account = .ok line ↔ ∃ time, m.text = .ok time ∧
    Log.line time e account = .ok line := Traversal.bind_eq_ok

theorem inline_print {members : List (Text × Datum)} (written : print members = .ok line) :
    line.Inline := by
  obtain ⟨parts, all, ⟨⟩⟩ := Traversal.bind_eq_ok.1 written
  have inline : ∀ t ∈ parts, Text.Inline t := by
    intro t ht
    obtain ⟨f, -, made⟩ := (Traversal.mem_of_mapM_eq_ok all).1 ht
    obtain ⟨value, json, ⟨⟩⟩ := Traversal.bind_eq_ok.1 made
    simp only [Text.inline_append]
    exact ⟨⟨Value.inline_jsonString f.1, by decide⟩, inline_datum json⟩
  simp only [Text.inline_append]
  exact ⟨⟨by decide, Text.inline_join (by decide) inline⟩, by decide⟩

/-- Whatever an event carries, it is written on one line. -/
theorem inline_lineAt (written : lineAt m e account = .ok line) : line.Inline := by
  obtain ⟨time, -, written⟩ := lineAt_eq_ok_iff.1 written
  obtain ⟨message, -, written⟩ := Traversal.bind_eq_ok.1 written
  exact inline_print written

theorem exists_print_iff {members : List (Text × Datum)} :
    (∃ line, print members = .ok line) ↔ ∀ f ∈ members, ∃ t, f.2.json = .ok t := by
  constructor
  · rintro ⟨line, written⟩ f hf
    obtain ⟨parts, all, -⟩ := Traversal.bind_eq_ok.1 written
    obtain ⟨part, -, made⟩ := Traversal.ok_of_mapM_eq_ok all hf
    obtain ⟨t, json, -⟩ := Traversal.bind_eq_ok.1 made
    exact ⟨t, json⟩
  · intro fine
    have each : ∀ f ∈ members, ∃ part, printMember f = .ok part := by
      intro f hf
      obtain ⟨t, json⟩ := fine f hf
      exact ⟨_, Traversal.bind_eq_ok.2 ⟨t, json, rfl⟩⟩
    obtain ⟨parts, all⟩ := Traversal.exists_mapM_eq_ok_iff.2 each
    exact ⟨_, Traversal.bind_eq_ok.2 ⟨parts, all, rfl⟩⟩

def Event.Printable (e : Event) : Prop := ∀ f ∈ shownFields e.extra, ∃ t, f.2.json = .ok t

theorem exists_lineAt (account : Option Text) (stamp : m.text = .ok time)
    (text : format e.message e.args = .ok message) (printable : e.Printable) :
    ∃ line, lineAt m e account = .ok line ∧ line.Inline := by
  have texts (t : Text) : ∃ json, (Datum.text t).json = .ok json := ⟨_, rfl⟩
  obtain ⟨line, written⟩ : ∃ line, print (assemble (Datum.fields (leading time message e))
      e.extra (account.map .text)) = .ok line := by
    refine exists_print_iff.2 fun f hf => ?_
    rcases of_mem_assemble hf with front | shown | ⟨a, reported, rfl⟩
    · obtain ⟨own, known, rfl⟩ := List.mem_map.1 front
      simp only [leading, List.mem_cons, List.not_mem_nil, or_false] at known
      rcases known with rfl | rfl | rfl | rfl <;> exact texts _
    · exact printable f shown
    · obtain ⟨t, -, rfl⟩ := Option.map_eq_some_iff.1 reported
      exact texts t
  have made : lineAt m e account = .ok line :=
    lineAt_eq_ok_iff.2 ⟨time, stamp, Traversal.bind_eq_ok.2 ⟨message, text, written⟩⟩
  exact ⟨line, made, inline_lineAt made⟩

end Log

end Pictograph
