import Pictograph.Proofs.Json.Reading
import Pictograph.Proofs.Log.Fields
import Pictograph.Proofs.Log.Lines
import Pictograph.Proofs.Traversal

/-!
What a line of the log says. Read back, it is one object with the time, the level, the logger and
the message of the event in front, then the fields of the context, all others by name, and an
exception. Only a field that is named like one of the four in front is not in its place: it takes
theirs.
-/

namespace Pictograph

namespace Value

theorem isJsonMembers_iff {members : List (Text × Value)} :
    IsJsonMembers members ↔ ∀ m ∈ members, m.2.IsJson := by
  induction members with
  | nil => simp [IsJsonMembers]
  | cons m rest ih => rw [IsJsonMembers, ih, List.forall_mem_cons]

theorem jsonMembers_eq_join (members : List (Text × Value)) :
    jsonMembers members =
      Text.join (codes ", ") (members.map fun m => jsonString m.1 ++ codes ": " ++ m.2.json) := by
  induction members with
  | nil => rfl
  | cons m rest ih =>
    cases rest with
    | nil =>
      rw [List.map_singleton, Text.join, List.intercalate_singleton]
      rfl
    | cons n rest =>
      have step : jsonMembers (m :: n :: rest) =
          jsonString m.1 ++ codes ": " ++ m.2.json ++ codes ", " ++ jsonMembers (n :: rest) := rfl
      rw [step, ih]
      exact List.intercalate_cons_cons.symm

theorem names_toJsonMembers (members : List (Text × Value)) :
    (toJsonMembers members).map (·.1) = members.map (·.1) := by
  induction members with
  | nil => rfl
  | cons m rest ih => rw [toJsonMembers, List.map_cons, ih, List.map_cons]

end Value

namespace Log

variable {m : Moment} {e : Event} {account : Option Text} {time message line : Text}
  {fields : List (Text × Value)}

def leadingNames : List Text := ["ts", "level", "logger", "message"].map codes

def reported (account : Option Text) : List (Text × Value) :=
  account.toList.map fun t => (codes "exc_info", .text t)

/-- Fields that an event can have and a line shows: each name once, none that belongs to every event
and none with an underscore in front, and values that JSON has. -/
structure Accepted (fields : List (Text × Value)) : Prop where
  once : (fields.map (·.1)).Nodup
  free : ∀ f ∈ fields, f.1 ∉ reservedNames
  shown : ∀ f ∈ fields, f.1.head? ≠ some 0x5F
  json : ∀ f ∈ fields, f.2.IsJson

/-- A line that is faithful to an event: one line with one object, led by the four members of the
event and then with all fields in their order. -/
structure Faithful (m : Moment) (e : Event) (fields : List (Text × Value))
    (account : Option Text) (line : Text) : Prop where
  oneLine : 0x0A ∉ line ∧ 0x0D ∉ line
  object : ∃ time message context others, m.text = .ok time ∧
    format e.message e.args = .ok message ∧ Arranged fields context others ∧
    Json.read line = some (.object (Value.toJsonMembers
      (leading time message e ++ (context ++ others ++ reported account))))

def behind (fields : List (Text × Value)) : List (Text × Value) :=
  fields.filter fun f => f.1 ∉ leadingNames

theorem shownFields_of_accepted (accepted : Accepted fields) :
    shownFields fields = fields := by
  refine List.filter_eq_self.2 fun f hf => ?_
  simp [accepted.free f hf, accepted.shown f hf]

theorem exc_info_reserved : codes "exc_info" ∈ reservedNames := by decide

theorem print_fields (members : List (Text × Value)) :
    print (Datum.fields members) = write Value.json (.object members) := by
  have parts : (Datum.fields members).mapM printMember =
        if Value.writableMembers members then
          .ok (members.map fun m => Value.jsonString m.1 ++ codes ": " ++ m.2.json)
        else (.error (.number .longNumber) : Except Fault (List Text)) := by
    induction members with
    | nil => rfl
    | cons m rest ih =>
      have step : (Datum.fields (m :: rest)) = (m.1, .value m.2) :: Datum.fields rest := rfl
      rw [step, List.mapM_cons, ih, Value.writableMembers]
      simp only [printMember, Datum.json, write, Value.write]
      cases m.2.writable with
      | false => rfl
      | true => cases Value.writableMembers rest <;> rfl
  rw [print, parts, write, Value.write, Value.writable]
  split
  · rw [Value.json, Value.jsonMembers_eq_join]
    rfl
  · rfl

theorem line_eq (text : format e.message e.args = .ok message)
    (given : e.extra = Datum.fields fields) : Log.line time e account = write Value.json
      (.object (assemble (leading time message e) fields (account.map .text))) := by
  have assembled : assemble (Datum.fields (leading time message e)) e.extra
      (account.map Datum.text) =
        Datum.fields (assemble (leading time message e) fields (account.map .text)) := by
    rw [given]
    have account : account.map Datum.text = (account.map Value.text).map Datum.value := by
      cases account <;> rfl
    rw [account]
    exact assemble_mapFields Datum.value _ _ _
  rw [Log.line, text]
  show print _ = _
  rw [assembled, print_fields]

theorem exists_withFields (time message : Text) (e : Event) (accepted : Accepted fields) :
    ∃ context others, Arranged (behind fields) context others ∧
      (orderedFields (shownFields fields)).foldl (fun ms f => setMember ms f.1 f.2)
          (leading time message e) =
        (leading time message e).map (replacedBy fields) ++ (context ++ others) := by
  obtain ⟨context, others, arranged, ordered⟩ := exists_arranged accepted.once
  refine ⟨_, _, arranged.filter _, ?_⟩
  have front : ((leading time message e).map (·.1)).Nodup := by
    show leadingNames.Nodup
    decide
  rw [shownFields_of_accepted accepted, ordered, foldl_setMember front arranged.once,
    arranged.replacedBy_eq accepted.once, List.filter_append]
  rfl

/-- The members of a line: the four in front, with the values of the fields that have their names,
then the other fields in their order. -/
theorem exists_assembled (time message : Text) (e : Event) (account : Option Text)
    (accepted : Accepted fields) :
    ∃ context others, Arranged (behind fields) context others ∧
      assemble (leading time message e) fields (account.map .text) =
        (leading time message e).map (replacedBy fields) ++
          (context ++ others ++ reported account) := by
  obtain ⟨context, others, arranged, set⟩ := exists_withFields time message e accepted
  refine ⟨context, others, arranged, ?_⟩
  cases account with
  | none =>
    rw [reported, Option.toList_none, List.map_nil, List.append_nil, ← set]
    rfl
  | some t =>
    have new : codes "exc_info" ∉ ((leading time message e).map (replacedBy fields) ++
        (context ++ others)).map (·.1) := by
      rw [List.map_append, names_replacedBy, List.mem_append, not_or]
      refine ⟨show codes "exc_info" ∉ leadingNames by decide, fun there => ?_⟩
      obtain ⟨f, hf, same⟩ := List.mem_map.1 there
      have given := (List.mem_filter.1 (arranged.mem_append.1 hf)).1
      exact accepted.free f given (same ▸ exc_info_reserved)
    rw [← List.append_assoc, reported, Option.toList_some, List.map_singleton,
      ← setMember_of_notMem new, ← set]
    rfl

variable {context others : List (Text × Value)}

theorem forall_members {p : Value → Prop} (texts : ∀ t, p (.text t)) (accepted : Accepted fields)
    (given : ∀ f ∈ fields, p f.2) (arranged : Arranged (behind fields) context others) :
    ∀ f ∈ (leading time message e).map (replacedBy fields) ++
      (context ++ others ++ reported account), p f.2 := by
  rw [List.forall_mem_append, List.forall_mem_append]
  refine ⟨?_, ?_, ?_⟩
  · intro f hf
    obtain ⟨front, known, rfl⟩ := List.mem_map.1 hf
    have own : ∀ front ∈ leading time message e, p front.2 := by
      simp [leading, texts]
    cases found : fields.lookup front.1 with
    | none => simpa [replacedBy, found] using own front known
    | some v =>
      have there := (lookup_eq_some_iff_mem accepted.once).1 found
      simpa [replacedBy, found] using given _ there
  · intro f hf
    exact given f (List.mem_filter.1 (arranged.mem_append.1 hf)).1
  · intro f hf
    obtain ⟨t, -, rfl⟩ := List.mem_map.1 hf
    exact texts t

theorem read_lineAt (given : e.extra = Datum.fields fields) (accepted : Accepted fields)
    (written : lineAt m e account = .ok line) :
    ∃ time message context others, m.text = .ok time ∧ format e.message e.args = .ok message ∧
      Arranged (behind fields) context others ∧
      Json.read line = some (.object (Value.toJsonMembers
        ((leading time message e).map (replacedBy fields) ++
          (context ++ others ++ reported account)))) := by
  obtain ⟨time, stamp, written⟩ := lineAt_eq_ok_iff.1 written
  obtain ⟨message, text, -⟩ := Traversal.bind_eq_ok.1 written
  rw [line_eq text given] at written
  obtain ⟨-, rfl⟩ := write_eq_ok_iff.1 written
  obtain ⟨context, others, arranged, assembled⟩ :=
    exists_assembled time message e account accepted
  rw [assembled]
  refine ⟨time, message, context, others, stamp, text, arranged, Json.read_json ?_⟩
  exact Value.isJsonMembers_iff.2 (forall_members (fun _ => trivial) accepted accepted.json arranged)

theorem faithful_of_free (given : e.extra = Datum.fields fields) (accepted : Accepted fields)
    (written : lineAt m e account = .ok line) (free : ∀ f ∈ fields, f.1 ∉ leadingNames) :
    Faithful m e fields account line := by
  obtain ⟨time, message, context, others, stamp, text, arranged, read⟩ :=
    read_lineAt given accepted written
  have all : behind fields = fields := by
    refine List.filter_eq_self.2 fun f hf => ?_
    simpa using free f hf
  have own : (leading time message e).map (replacedBy fields) = leading time message e := by
    refine map_replacedBy_of_disjoint fun front known there => ?_
    obtain ⟨f, hf, same⟩ := List.mem_map.1 there
    exact free f hf (same ▸ List.mem_map_of_mem (f := Prod.fst) known)
  rw [all] at arranged
  rw [own] at read
  have inline := inline_lineAt written
  exact ⟨⟨inline.notMem_lineFeed, inline.notMem_carriageReturn⟩, time, message, context, others,
    stamp, text, arranged, read⟩

/-- On a faithful line every field stands behind, where none with a name of the front can be. -/
theorem Faithful.free (given : e.extra = Datum.fields fields) (accepted : Accepted fields)
    (written : lineAt m e account = .ok line) (faithful : Faithful m e fields account line) :
    ∀ f ∈ fields, f.1 ∉ leadingNames := by
  obtain ⟨time, message, context, others, stamp, text, arranged, read⟩ := faithful.object
  obtain ⟨time', message', context', others', -, -, arranged', read'⟩ :=
    read_lineAt given accepted written
  have members := Json.object.inj (Option.some.inj (read.symm.trans read'))
  have names := congrArg (List.map Prod.fst) members
  rw [Value.names_toJsonMembers, Value.names_toJsonMembers] at names
  have back : (context ++ others ++ reported account).map (·.1) =
      (context' ++ others' ++ reported account).map (·.1) :=
    (List.append_right_inj leadingNames).1 names
  intro f hf led
  have there : f.1 ∈ (context' ++ others' ++ reported account).map (·.1) :=
    back ▸ List.mem_map_of_mem (List.mem_append_left _ (arranged.mem_append.2 hf))
  obtain ⟨g, hg, same⟩ := List.mem_map.1 there
  obtain field | error := List.mem_append.1 hg
  · have free := (List.mem_filter.1 (arranged'.mem_append.1 field)).2
    rw [same] at free
    exact absurd led (of_decide_eq_true free)
  · obtain ⟨r, -, rfl⟩ := List.mem_map.1 error
    exact accepted.free f hf (same ▸ exc_info_reserved)

theorem exists_lineAt_iff (given : e.extra = Datum.fields fields) (accepted : Accepted fields) :
    (∃ line, lineAt m e account = .ok line) ↔ (∃ time, m.text = .ok time) ∧
      (∃ message, format e.message e.args = .ok message) ∧ ∀ f ∈ fields, f.2.writable = true := by
  constructor
  · rintro ⟨line, written⟩
    obtain ⟨time, stamp, written⟩ := lineAt_eq_ok_iff.1 written
    obtain ⟨message, text, -⟩ := Traversal.bind_eq_ok.1 written
    refine ⟨⟨time, stamp⟩, ⟨message, text⟩, fun f hf => ?_⟩
    rw [line_eq text given] at written
    obtain ⟨writable, -⟩ := write_eq_ok_iff.1 written
    obtain ⟨context, others, arranged, assembled⟩ :=
      exists_assembled time message e account accepted
    rw [assembled] at writable
    have all := Value.writableMembers_iff.1 writable
    by_cases led : f.1 ∈ leadingNames
    · -- A field with the name of a member in front stands in its place.
      obtain ⟨own, known, same⟩ : ∃ own ∈ leading time message e, own.1 = f.1 :=
        List.mem_map.1 (show f.1 ∈ (leading time message e).map (·.1) from led)
      have found := (lookup_eq_some_iff_mem accepted.once).2 (show (f.1, f.2) ∈ fields from hf)
      have here := all _
        (List.mem_append_left _ (List.mem_map_of_mem (f := replacedBy fields) known))
      rwa [replacedBy, same, found] at here
    · refine all f (List.mem_append_right _ (List.mem_append_left _ (arranged.mem_append.2 ?_)))
      exact List.mem_filter.2 ⟨hf, decide_eq_true led⟩
  · rintro ⟨⟨time, stamp⟩, ⟨message, text⟩, writable⟩
    have printable : e.Printable := by
      intro f hf
      rw [given] at hf
      obtain ⟨own, known, rfl⟩ := List.mem_map.1 (List.mem_filter.1 hf).1
      exact ⟨_, write_eq_ok_iff.2 ⟨writable own known, rfl⟩⟩
    obtain ⟨line, written, -⟩ := exists_lineAt account stamp text printable
    exact ⟨line, written⟩

/-- A line is faithful to its event exactly if its time, its message and its fields can be written
and no field is named like a member in front. Any line is one line, and what it says differs from a
faithful one only in that such a field takes the place of the member with its name: the other fields
are in theirs. -/
theorem faithful_line_iff (m : Moment) (e : Event) (account : Option Text)
    {fields : List (Text × Value)} (given : e.extra = Datum.fields fields)
    (accepted : Accepted fields) :
    ((∃ line, lineAt m e account = .ok line ∧ Faithful m e fields account line) ↔
      (∃ time, m.text = .ok time) ∧ (∃ message, format e.message e.args = .ok message) ∧
        (∀ f ∈ fields, f.2.writable = true) ∧ ∀ f ∈ fields, f.1 ∉ leadingNames) ∧
    ∀ line, lineAt m e account = .ok line → 0x0A ∉ line ∧ 0x0D ∉ line ∧
      ∃ time message context others, m.text = .ok time ∧
        format e.message e.args = .ok message ∧ Arranged (behind fields) context others ∧
        Json.read line = some (.object (Value.toJsonMembers
          ((leading time message e).map (replacedBy fields) ++
            (context ++ others ++ reported account)))) := by
  refine ⟨⟨?_, ?_⟩, ?_⟩
  · rintro ⟨line, written, faithful⟩
    obtain ⟨stamp, text, writable⟩ := (exists_lineAt_iff given accepted).1 ⟨line, written⟩
    exact ⟨stamp, text, writable, faithful.free given accepted written⟩
  · rintro ⟨stamp, text, writable, free⟩
    obtain ⟨line, written⟩ := (exists_lineAt_iff given accepted).2 ⟨stamp, text, writable⟩
    exact ⟨line, written, faithful_of_free given accepted written free⟩
  · intro line written
    have inline := inline_lineAt written
    exact ⟨inline.notMem_lineFeed, inline.notMem_carriageReturn,
      read_lineAt given accepted written⟩

def failedFields : List (Text × Value) :=
  [(codes "zeta", .int 1), (codes "flavor", .text (codes "python")),
    (codes "alpha", .list [.null]), (codes "key", .text (codes "2764"))]

def failed : Event :=
  ⟨codes "emojiparse", .error, codes "failed", [], Datum.fields failedFields⟩

def boom : Text := accountOf (codes "ValueError") (.text (codes "boom"))

def mislabelledFields : List (Text × Value) :=
  [(codes "level", .text (codes "x")), (codes "alpha", .null)]

def mislabelled : Event := { failed with extra := Datum.fields mislabelledFields }

theorem mislabelled_not_faithful :
    (Accepted failedFields ∧ ∃ line, lineAt ⟨0, 0⟩ failed (some boom) = .ok line ∧
      Faithful ⟨0, 0⟩ failed failedFields (some boom) line) ∧
    Accepted mislabelledFields ∧
      lineAt ⟨0, 0⟩ mislabelled none = .ok (codes "\x7b\"ts\": \"1970-01-01T00:00:00Z\", " ++
        codes "\"level\": \"x\", \"logger\": \"emojiparse\", \"message\": \"failed\", " ++
        codes "\"alpha\": null\x7d") ∧
      ¬ ∃ line, lineAt ⟨0, 0⟩ mislabelled none = .ok line ∧
        Faithful ⟨0, 0⟩ mislabelled mislabelledFields none line := by
  have stamp : (Moment.mk 0 0).text = .ok (codes "1970-01-01T00:00:00Z") := by decide
  have right : Accepted failedFields :=
    ⟨by decide, by decide, by decide, by simp [failedFields, Value.IsJson, Value.IsJsonItems]⟩
  have wrong : Accepted mislabelledFields :=
    ⟨by decide, by decide, by decide, by simp [mislabelledFields, Value.IsJson]⟩
  refine ⟨⟨right, ?_⟩, wrong, by decide +kernel, ?_⟩
  · exact (faithful_line_iff ⟨0, 0⟩ failed (some boom) rfl right).1.2
      ⟨⟨_, stamp⟩, ⟨_, rfl⟩, by decide, by decide⟩
  · intro faithful
    obtain ⟨-, -, -, free⟩ := (faithful_line_iff ⟨0, 0⟩ mislabelled none rfl wrong).1.1 faithful
    exact free _ List.mem_cons_self (by decide)

end Log

end Pictograph
