import FormSchema.Assist.Command
import FormSchema.Proofs.Assist.Comma

/-!
# Sessions of editor commands

A call of a command applies one whole edit or none, whatever the editor does.  So after any calls,
of known commands and unknown ones, with an editor and without, the text is what the accepted edits
make of it, one after the other.
-/

namespace FormSchema

/-! ## Section 1: Cursors at which something can be inserted -/

private theorem InsertionKind.ofJson?_word (kind : InsertionKind) :
    ofJson? (.str kind.word) = some kind := by
  cases kind <;> rfl

/-- Whether a line and a column are those of a cursor behind the text `before`. -/
def Text.EndsAt (before : Text) (line character : Int) : Prop :=
  line = (before.count .lineFeed : Nat) ∧ character = (before.lastLine.length : Nat)

namespace Insertion

variable {text : Text} {line character : Int} {kind : InsertionKind} {i : Insertion}

/-- A plan for the word of a kind is a plan for the kind. -/
theorem planFor_word :
    planFor text line character (.str kind.word) = plan text line character kind := by
  rw [planFor, InsertionKind.ofJson?_word]

/-- What is planned is put in at the cursor that was asked for. -/
theorem splits_of_plan (h : plan text line character kind = .ok i) :
    ∃ before after, text = before ++ after ∧ before.EndsAt line character ∧
      i.applyTo text = before ++ (i.text ++ after) := by
  obtain ⟨before, after, rfl, hline, hcharacter⟩ := exists_cursor_of_plan h
  obtain ⟨rfl, rfl, -, -⟩ := place_of_plan h
  exact ⟨before, after, rfl, ⟨congrArg _ hline, congrArg _ hcharacter⟩,
    applyTo_append hline hcharacter after⟩

private theorem exists_plan_of_endsAt {before : Text} (h : before.EndsAt line character)
    (after : Text)
    (kind : InsertionKind) : ∃ i, plan (before ++ after) line character kind = .ok i := by
  obtain ⟨rfl, rfl⟩ := h
  obtain ⟨i, -, hplan, -⟩ := plan_at_cursor kind before after
  exact ⟨i, hplan⟩

end Insertion

/-! ## Section 2: One call -/

namespace Command

variable {text : Text}

/-- What an editor does in a call: where its cursor is, or the message with which asking for it
fails, and how it takes an edit. -/
structure Stance where
  cursor : Except Text (Int × Int)
  reaction : Reaction

/-- A call of a command by its identifier, in an editor or without one. -/
structure Call where
  id : Text
  stance : Option Stance

namespace Call

/-- What a call does while the editor holds a text. -/
def effect? (call : Call) (text : Text) : Option Effect :=
  run? call.id (call.stance.map fun s => ⟨text, s.cursor, s.reaction⟩) text

/-- The text after a call. -/
def textAfter (call : Call) (text : Text) : Text := ((call.effect? text).map (·.text)).getD text

/-- Whether an editor is there, with its cursor in the text, and takes the edit. -/
def Accepts (call : Call) (text : Text) : Prop :=
  ∃ s ∈ call.stance, s.reaction = .accept ∧
    ∃ before after line character, text = before ++ after ∧ s.cursor = .ok (line, character) ∧
      before.EndsAt line character

end Call

/-- What the command of a call does to a text: one whole edit without an error, or no edit and one
error, which is not shown if there is no editor. -/
structure AllOrNothing (c : Command) (call : Call) (text : Text) (done : Effect) : Prop where
  applied_iff : done.applied = true ↔ call.Accepts text
  applied_iff_one : done.applied = true ↔ done.edits.length = 1
  spliced : done.applied = true → done.errors = [] ∧
    ∃ before after line character i, text = before ++ after ∧ before.EndsAt line character ∧
      call.stance = some ⟨.ok (line, character), .accept⟩ ∧
      Insertion.planFor text line character (.str c.kind.word) = .ok i ∧ done.edits = [i] ∧
      done.text = before ++ (i.text ++ after)
  untouched : done.applied = false → done.edits = [] ∧ done.text = text ∧
    match call.stance with
    | none => done.errors = []
    | some _ => ∃ reason, done.errors = [c.errorMessage reason]

/-- What can come of a command in an editor. -/
theorem execute_cases (c : Command) (editor : Editor) :
    (∃ i, c.shape editor = .ok i ∧ editor.reaction = .accept ∧
      c.execute editor = ⟨true, [i], [], [], i.applyTo editor.text⟩) ∨
    (((∀ i, c.shape editor ≠ .ok i) ∨ editor.reaction ≠ .accept) ∧
      ∃ reason log, c.execute editor = c.failure editor reason log) := by
  rw [execute]
  cases hshape : c.shape editor with
  | error reason => exact .inr ⟨.inl nofun, reason, _, rfl⟩
  | ok i =>
    cases editor.reaction with
    | accept => exact .inl ⟨i, rfl, rfl, rfl⟩
    | reject => exact .inr ⟨.inr nofun, _, _, rfl⟩
    | fail message => exact .inr ⟨.inr nofun, message, _, rfl⟩

private theorem shape_eq_ok_iff {c : Command} {editor : Editor} {i : Insertion} :
    c.shape editor = .ok i ↔ ∃ line character, editor.cursor = .ok (line, character) ∧
      Insertion.plan editor.text line character c.kind = .ok i := by
  rw [shape]
  cases editor.cursor with
  | error message => simp
  | ok cursor =>
    obtain ⟨line, character⟩ := cursor
    cases hplan : Insertion.plan editor.text line character c.kind with
    | error e => simp [hplan]
    | ok insertion => simp [hplan]

/-- A command in an editor applies one whole edit or none. -/
theorem allOrNothing_execute (c : Command) (id text : Text) (s : Stance) :
    AllOrNothing c ⟨id, some s⟩ text (c.execute ⟨text, s.cursor, s.reaction⟩) := by
  rcases c.execute_cases ⟨text, s.cursor, s.reaction⟩ with
    ⟨i, hshape, haccept, hdone⟩ | ⟨hnot, reason, log, hdone⟩
  · obtain ⟨line, character, hcursor, hplan⟩ := shape_eq_ok_iff.mp hshape
    obtain ⟨before, after, htext, hends, hsplice⟩ := Insertion.splits_of_plan hplan
    have hstance : s = ⟨.ok (line, character), .accept⟩ := by
      rw [← hcursor, ← show s.reaction = .accept from haccept]
    -- the insertion has a place and is accepted, so the whole of it is made
    rw [hdone]
    constructor
    · exact iff_of_true rfl
        ⟨s, rfl, haccept, before, after, line, character, htext, hcursor, hends⟩
    · exact iff_of_true rfl rfl
    · intro _
      exact ⟨rfl, before, after, line, character, i, htext, hends, congrArg some hstance,
        Insertion.planFor_word.trans hplan, rfl, hsplice⟩
    · nofun
  · rw [hdone]
    -- it has no place or is refused, and nothing is made
    constructor
    · refine iff_of_false Bool.false_ne_true ?_
      rintro ⟨s', hs, haccept, before, after, line, character, rfl, hcursor, hends⟩
      obtain rfl : s = s' := Option.some.inj hs
      rcases hnot with hshape | hreaction
      · obtain ⟨i, hplan⟩ := Insertion.exists_plan_of_endsAt hends after c.kind
        exact hshape i (shape_eq_ok_iff.mpr ⟨line, character, hcursor, hplan⟩)
      · exact hreaction haccept
    · exact iff_of_false Bool.false_ne_true (by simp [failure])
    · nofun
    · intro _
      exact ⟨rfl, rfl, reason, rfl⟩

/-- So does a command without an editor, and applies none. -/
theorem allOrNothing_withoutEditor (c : Command) (id text : Text) (log : List LogRecord) :
    AllOrNothing c ⟨id, none⟩ text ⟨false, [], [], log, text⟩ where
  applied_iff := iff_of_false Bool.false_ne_true fun ⟨_, hs, _⟩ => nomatch hs
  applied_iff_one := iff_of_false Bool.false_ne_true (by simp)
  spliced := nofun
  untouched _ := ⟨rfl, rfl, rfl⟩

private theorem ofId?_eq_none_iff {id : Text} : ofId? id = none ↔ ∀ c ∈ all, c.id ≠ id := by
  simp [ofId?, List.find?_eq_none]

private theorem mem_of_ofId? {id : Text} {c : Command} (h : ofId? id = some c) :
    c ∈ all ∧ c.id = id := by
  have hid := List.find?_some (p := fun c : Command => decide (c.id = id)) h
  exact ⟨List.mem_of_find?_eq_some h, of_decide_eq_true hid⟩

/-! ## Section 3: Sessions -/

/-- A call in a session, with the text in front of it and what it did; nothing if the command is
unknown. -/
structure Event where
  before : Text
  call : Call
  done : Option Effect

namespace Event

/-- The edits that an event made. -/
def edits (e : Event) : List Insertion :=
  match e.done with
  | none => []
  | some done => done.edits

/-- What a call can come to: it raises an error for an unknown command and shows nothing, or its
command applies one whole edit or none. -/
def Lawful (e : Event) : Prop :=
  match e.done with
  | none => ∀ c ∈ all, c.id ≠ e.call.id
  | some done => ∃ c ∈ all, c.id = e.call.id ∧ AllOrNothing c e.call e.before done

end Event

/-- The events of calls that begin with a text. -/
def events (text : Text) : List Call → List Event
  | [] => []
  | call :: rest => ⟨text, call, call.effect? text⟩ :: events (call.textAfter text) rest

/-- The text after calls that begin with a text. -/
def textAfterAll (text : Text) (calls : List Call) : Text :=
  calls.foldl (fun text call => call.textAfter text) text

/-- A text with edits made in it, one after the other. -/
def applyAll (edits : List Insertion) (text : Text) : Text :=
  edits.foldl (fun text i => i.applyTo text) text

private theorem lawful_effect (call : Call) (text : Text) :
    Event.Lawful ⟨text, call, call.effect? text⟩ := by
  obtain ⟨id, stance⟩ := call
  rw [Event.Lawful, Call.effect?, run?]
  -- an unknown command does nothing; a known one does all of it or nothing
  cases hid : ofId? id with
  | none => exact ofId?_eq_none_iff.mp hid
  | some c =>
    obtain ⟨hmem, hcid⟩ := mem_of_ofId? hid
    cases stance with
    | none => exact ⟨c, hmem, hcid, allOrNothing_withoutEditor c id text _⟩
    | some s => exact ⟨c, hmem, hcid, allOrNothing_execute c id text s⟩

/-- The text after a command is what its edits make of the text in front of it. -/
theorem AllOrNothing.text_eq {c : Command} {call : Call} {text : Text} {done : Effect}
    (h : AllOrNothing c call text done) : done.text = applyAll done.edits text := by
  -- either one insertion was applied, or there are no edits
  cases happlied : done.applied with
  | true =>
    obtain ⟨-, before, after, line, character, i, rfl, ⟨hline, hcharacter⟩, -, hplan, hedits,
      htext⟩ := h.spliced happlied
    obtain ⟨hline', hcharacter', -, -⟩ :=
      Insertion.place_of_plan (Insertion.planFor_word.symm.trans hplan)
    rw [hedits, htext, applyAll, List.foldl_cons, List.foldl_nil]
    exact (Insertion.applyTo_append (by omega) (by omega) after).symm
  | false =>
    obtain ⟨hedits, htext, -⟩ := h.untouched happlied
    rw [hedits, htext, applyAll, List.foldl_nil]

private theorem textAfter_eq (call : Call) (text : Text) :
    call.textAfter text = applyAll (Event.edits ⟨text, call, call.effect? text⟩) text := by
  have hlawful := lawful_effect call text
  rw [Call.textAfter, Event.edits]
  cases hdone : call.effect? text with
  | none => rfl
  | some done =>
    rw [hdone] at hlawful
    obtain ⟨c, -, -, h⟩ := hlawful
    exact h.text_eq

private theorem applyAll_append (edits more : List Insertion) (text : Text) :
    applyAll (edits ++ more) text = applyAll more (applyAll edits text) :=
  List.foldl_append

private theorem map_call_events (text : Text) (calls : List Call) :
    (events text calls).map Event.call = calls := by
  induction calls generalizing text with
  | nil => rfl
  | cons call rest ih => rw [events, List.map_cons, ih]

private theorem lawful_of_mem_events {text : Text} {calls : List Call} {e : Event}
    (h : e ∈ events text calls) : e.Lawful := by
  induction calls generalizing text with
  | nil => cases h
  | cons call rest ih =>
    rcases List.mem_cons.mp h with rfl | hrest
    · exact lawful_effect call text
    · exact ih hrest

/-- The text in front of an event is what the edits before it make of the first text. -/
theorem before_of_events {text : Text} {calls : List Call} {earlier later : List Event} {e : Event}
    (h : events text calls = earlier ++ e :: later) :
    e.before = applyAll (earlier.flatMap Event.edits) text := by
  -- call by call; the text before a call is what the calls before have made of it
  induction calls generalizing text earlier with
  | nil => exact absurd h.symm (by simp [events])
  | cons call rest ih =>
    rw [events] at h
    cases earlier with
    | nil =>
      rw [← (List.cons.inj h).1]
      rfl
    | cons first earlier =>
      obtain ⟨rfl, hrest⟩ := List.cons.inj h
      rw [ih hrest, textAfter_eq, List.flatMap_cons, applyAll_append]

/-- The text after a session is the first text with all edits of the session. -/
private theorem textAfterAll_eq (text : Text) (calls : List Call) :
    textAfterAll text calls = applyAll ((events text calls).flatMap Event.edits) text := by
  induction calls generalizing text with
  | nil => rfl
  | cons call rest ih =>
    rw [events, List.flatMap_cons, applyAll_append, ← textAfter_eq]
    exact ih (call.textAfter text)

/-- In a session of any calls on any text, there is one event for each call, in order.  In each of
them the command is unknown and nothing happens, or one whole edit or none is applied to the text as
the edits so far have made it; and in the end the text is what the accepted edits make of it, one
after the other. -/
theorem session_all_or_nothing (text : Text) (calls : List Call) :
    (events text calls).map Event.call = calls ∧
      (∀ e ∈ events text calls, e.Lawful) ∧
      (∀ earlier e later, events text calls = earlier ++ e :: later →
        e.before = applyAll (earlier.flatMap Event.edits) text) ∧
      textAfterAll text calls = applyAll ((events text calls).flatMap Event.edits) text :=
  ⟨map_call_events text calls, fun _ => lawful_of_mem_events, fun _ _ _ => before_of_events,
    textAfterAll_eq text calls⟩

example :
    textAfterAll "\x7b\"data_type\": \x7d"
        [⟨"widget-schema.insertHtmlEditorMarker", some ⟨.ok (1, 0), .accept⟩⟩,
          ⟨"widget-schema.insertHtmlEditorMarker", some ⟨.ok (0, 14), .accept⟩⟩,
          ⟨"widget-schema.insertDropdownChoices", some ⟨.ok (0, 14), .reject⟩⟩] =
      "\x7b\"data_type\": \"area\",\n\"display\": \"html-editor\"\x7d" := by
  decide +kernel

end Command

end FormSchema
