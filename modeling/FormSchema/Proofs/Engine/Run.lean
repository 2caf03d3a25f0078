import FormSchema.Engine

/-!
# Runs of an engine

A pass meets an engine that is validating, and such an engine refuses every call without being
changed.  So a run leaves the engine as it was, and what it finds depends on the passes and on the
text alone.  The same holds of every step of a host, but for the collection of published findings.

The engine answers the calls of its own passes: validation is a fixed point of `validateWith`, and
the two levels by which it is defined lose nothing.
-/

namespace FormSchema

/-! ## Section 1: Refused calls -/

/-- A call that is refused by every engine that is validating, and then changes nothing. -/
def Refuses (validate : ValidateCall) : Prop :=
  ∀ (engine : Engine) (snapshot : Snapshot), engine.state = .validating →
    validate engine snapshot = .pure engine (.error ⟨snapshot.uri⟩)

/-- The address of the document that a request is about. -/
def Request.uri : Request → Text
  | .validate snapshot => snapshot.uri
  | .publish snapshot => snapshot.uri

private theorem refuses_validateWith (inner : ValidateCall) : Refuses (validateWith inner) := by
  intro engine snapshot h
  simp only [validateWith, h]

/-- The engine refuses to validate while it validates. -/
theorem Engine.refuses_validate : Refuses Engine.validate := refuses_validateWith _

variable {validate : ValidateCall} {engine : Engine} {root : Container} {text : Text}

/-- Whether a request asks for validation or for publication, a validating engine refuses it. -/
theorem requestWith_eq_refusal (hr : Refuses validate) (hs : engine.state = .validating)
    (request : Request) :
    requestWith validate engine request = .pure engine (.error ⟨request.uri⟩) := by
  cases request with
  | validate snapshot => exact hr engine snapshot hs
  | publish snapshot =>
    simp only [requestWith, publishWith, hr engine snapshot hs, Outcome.pure]
    rfl

/-! ## Section 2: Scripts -/

namespace Action

/-- What a script reports if all its calls are refused: the findings of its reports in order, or
nothing if it gives up, be it by itself or because a report fails. -/
def contribution? (root : Container) (text : Text) : List Action → Option (List Diagnostic)
  | [] => some []
  | .report findings :: rest =>
    match findings root text with
    | some found => (contribution? root text rest).map (found ++ ·)
    | none => none
  | .call _ .note :: rest => contribution? root text rest
  | .call _ .giveUp :: _ => none
  | .giveUp :: _ => none

/-- A script that ends by giving up reports nothing, whatever its other actions find. -/
theorem contribution?_append_giveUp (root : Container) (text : Text) (script : List Action) :
    contribution? root text (script ++ [.giveUp]) = none := by
  -- whatever the script does, it gives up in the end
  induction script with
  | nil => rfl
  | cons action rest ih =>
    cases action with
    | report findings =>
      rw [List.cons_append, contribution?, ih]
      cases findings root text <;> rfl
    | giveUp => rfl
    | call request onRefusal =>
      cases onRefusal with
      | note => exact ih
      | giveUp => rfl

/-- What a script notes if all its calls are refused by a validating engine. -/
def notes (root : Container) (text : Text) : List Action → List Text
  | [] => []
  | .report findings :: rest => if (findings root text).isSome then notes root text rest else []
  | .call request .note :: rest =>
    (EngineState.validating.word ++ ": " ++ Busy.message ⟨request.uri⟩) :: notes root text rest
  | .call _ .giveUp :: _ => []
  | .giveUp :: _ => []

end Action

/-- What a pass contributes to a run on a document, nothing if it gives up. -/
def Pass.contribution? (root : Container) (text : Text) (pass : Pass) : Option (List Diagnostic) :=
  Action.contribution? root text pass.script

/-- While the engine validates, a script does not change it, and notes and contributions can be read
off the actions. -/
theorem runScript_eq (hr : Refuses validate) (hs : engine.state = .validating)
    (found : List Diagnostic) (script : List Action) :
    runScript validate root text engine found script =
      ⟨engine, [], Action.notes root text script,
        (Action.contribution? root text script).map (found ++ ·)⟩ := by
  -- no action changes the engine, so the invariant goes on to the rest of the script
  induction script generalizing found with
  | nil => simp [runScript, Outcome.pure, Action.notes, Action.contribution?]
  | cons action rest ih =>
    cases action with
    | report findings =>
      rw [runScript, Action.notes, Action.contribution?]
      cases findings root text with
      | none => rfl
      | some more =>
        simp only [ih, Option.isSome_some, if_true, Option.map_map, Function.comp_def,
          List.append_assoc]
    | giveUp => rfl
    | call request onRefusal =>
      have hrefused := requestWith_eq_refusal hr hs request
      -- the call is refused: the script either notes that and goes on, or ends there
      cases onRefusal with
      | note =>
        simp only [runScript, hrefused, Outcome.pure, ih, Outcome.after, refusalNote, hs]
        rfl
      | giveUp =>
        simp only [runScript, hrefused]
        rfl

/-! ## Section 3: Passes -/

/-- The passes that give up on a document. -/
def givingUp (root : Container) (text : Text) (passes : List Pass) : List Pass :=
  passes.filter fun pass => (pass.contribution? root text).isNone

/-- The passes run to the end one after the other: the findings of those that do not give up, in
order, a record of each that does, and an engine as before. -/
theorem runPasses_eq (hr : Refuses validate) (hs : engine.state = .validating)
    (passes : List Pass) :
    runPasses validate root text engine passes =
      ⟨engine, (givingUp root text passes).map skippedRecord,
        passes.flatMap fun pass => Action.notes root text pass.script,
        passes.flatMap fun pass => (pass.contribution? root text).getD []⟩ := by
  induction passes with
  | nil => rfl
  | cons pass rest ih =>
    -- the engine that the script leaves is the one it met, and so the rest is run by that one
    rw [runPasses, runScript_eq hr hs]
    simp only [ih, List.flatMap_cons]
    cases hc : pass.contribution? root text with
    | some found =>
      rw [Pass.contribution?] at hc
      simp [hc, Outcome.after, Outcome.withAnswer, givingUp, Pass.contribution?]
    | none =>
      rw [Pass.contribution?] at hc
      simp [hc, Outcome.after, givingUp, Pass.contribution?]

/-! ## Section 4: Validation -/

/-- What a list of passes finds in a text. -/
def diagnose (passes : List Pass) (text : Text) : List Diagnostic :=
  match Json.parse text with
  | .error fault => [invalidJson text fault]
  | .ok (.obj root) => passes.flatMap fun pass => (pass.contribution? root text).getD []
  | .ok value => [rootNotObject value]

/-- The findings on a document are what the passes contribute, one behind the other. -/
theorem diagnose_document (h : Json.parse text = .ok (.obj root)) (passes : List Pass) :
    diagnose passes text = passes.flatMap fun pass => (pass.contribution? root text).getD [] := by
  simp only [diagnose, h]

/-- A run over a text leaves the engine as it was and answers with the findings. -/
private theorem runText_engine_answer (hr : Refuses validate) (hs : engine.state = .validating)
    (text : Text) :
    (runText validate engine text).engine = engine ∧
      (runText validate engine text).answer = diagnose engine.passes text := by
  cases hp : Json.parse text with
  | error fault => simp [runText, diagnose, hp, Outcome.pure]
  | ok value =>
    cases value with
    | obj root => simp [runText, diagnose, hp, runPasses_eq hr hs]
    | _ => simp [runText, diagnose, hp, Outcome.pure]

private theorem validateWith_idle {inner : ValidateCall} (hr : Refuses inner)
    (hs : engine.state = .idle)
    (snapshot : Snapshot) :
    (validateWith inner engine snapshot).engine = engine ∧
      (validateWith inner engine snapshot).answer = .ok (diagnose engine.passes snapshot.text) := by
  obtain ⟨config, passes, collection, state⟩ := engine
  obtain rfl : state = .idle := hs
  have hstate : (Engine.mk config passes collection .validating).state = .validating := rfl
  -- the run is made by the engine in the other state, and it leaves that engine as it was
  have hrun := runText_engine_answer hr hstate snapshot.text
  simp only [validateWith, hrun.1, hrun.2, and_self]

/-- Which call answers the passes does not matter, as long as it refuses. -/
theorem runText_congr {validate' : ValidateCall} (hr : Refuses validate) (hr' : Refuses validate')
    (hs : engine.state = .validating) (text : Text) :
    runText validate engine text = runText validate' engine text := by
  unfold runText
  split
  · rfl
  · rw [runPasses_eq hr hs, runPasses_eq hr' hs]
  · rfl

private theorem validateWith_congr {inner inner' : ValidateCall} (hr : Refuses inner)
    (hr' : Refuses inner') : validateWith inner = validateWith inner' := by
  funext engine snapshot
  -- a validating engine refuses either way; an idle one runs passes whose calls are refused
  cases hs : engine.state with
  | validating =>
    rw [refuses_validateWith inner engine snapshot hs,
      refuses_validateWith inner' engine snapshot hs]
  | idle =>
    simp only [validateWith, hs]
    rw [runText_congr hr hr' rfl]

namespace Engine

/-- The passes of an engine call that engine itself: its validation answers them. -/
theorem validate_eq_validateWith : Engine.validate = validateWith Engine.validate :=
  validateWith_congr (refuses_validateWith refuse) refuses_validate

/-- An idle engine answers with what its passes find in the text, and is the same afterwards. -/
theorem validate_idle (hs : engine.state = .idle) (snapshot : Snapshot) :
    (engine.validate snapshot).engine = engine ∧
      (engine.validate snapshot).answer = .ok (diagnose engine.passes snapshot.text) :=
  validateWith_idle (refuses_validateWith refuse) hs snapshot

/-- An idle engine publishes what it finds. -/
theorem publish_idle (hs : engine.state = .idle) (snapshot : Snapshot) :
    (engine.publish snapshot).engine =
        { engine with
          collection :=
            engine.collection.set snapshot.uri (diagnose engine.passes snapshot.text) } ∧
      (engine.publish snapshot).answer = .ok (diagnose engine.passes snapshot.text) := by
  obtain ⟨hengine, hanswer⟩ := validate_idle hs snapshot
  simp only [publish, publishWith, hanswer, hengine, and_self]

end Engine

/-- Where a text stands does not matter for what is found in it. -/
theorem validateText_eq (uri text : Text) : validateText uri text = diagnose Pass.defaults text := by
  rw [validateText, (Engine.validate_idle rfl _).2]
  rfl

end FormSchema
