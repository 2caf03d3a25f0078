import FormSchema.Proofs.Engine.Session

/-!
# Calls from inside a run

The engines that the passes of a run meet are laid open: one for each pass, and one for each action
of its script.  All of them are the one engine that is validating, also behind a call that was
refused, and each call that a pass makes is refused and changes nothing.
-/

namespace FormSchema

/-! ## Section 1: Moments of a run -/

/-- A moment of a run: an action, and the engine that it meets. -/
structure Moment where
  action : Action
  engine : Engine

/-- The moments of a script, one for each action up to the one with which it gives up.  An action
behind a call meets the engine that the call has left.  The actions behind a report are listed
whatever the document is, also if the report fails on it and they are not reached. -/
def scriptMoments (validate : ValidateCall) (engine : Engine) : List Action → List Moment
  | [] => []
  | .report findings :: rest =>
    ⟨.report findings, engine⟩ :: scriptMoments validate engine rest
  | .giveUp :: _ => [⟨.giveUp, engine⟩]
  | .call request onRefusal :: rest =>
    let o := requestWith validate engine request
    ⟨.call request onRefusal, engine⟩ ::
      match o.answer, onRefusal with
      | .error _, .giveUp => []
      | _, _ => scriptMoments validate o.engine rest

/-- The passes of a run, each with the engine that it meets: the first one meets the engine at the
start, and every other one the engine that the pass before it has left. -/
def visits (validate : ValidateCall) (root : Container) (text : Text) (engine : Engine) :
    List Pass → List (Pass × Engine)
  | [] => []
  | pass :: rest =>
    (pass, engine) ::
      visits validate root text (runScript validate root text engine [] pass.script).engine rest

/-! ## Section 2: What a moment can be -/

variable {validate : ValidateCall} {engine : Engine} {root : Container} {text : Text}

/-- At every moment of a script the engine is the one that the script began with. -/
theorem engine_of_mem_scriptMoments (hr : Refuses validate) (hs : engine.state = .validating)
    {script : List Action} {m : Moment} (hm : m ∈ scriptMoments validate engine script) :
    m.engine = engine := by
  induction script with
  | nil => simp [scriptMoments] at hm
  | cons action rest ih =>
    cases action with
    | report findings =>
      rw [scriptMoments] at hm
      rcases List.mem_cons.mp hm with rfl | hrest
      · rfl
      · exact ih hrest
    | giveUp =>
      rw [scriptMoments, List.mem_singleton] at hm
      rw [hm]
    | call request onRefusal =>
      -- a refused call leaves the engine as it is, so what comes behind it meets the same one
      have hrefused := requestWith_eq_refusal hr hs request
      cases onRefusal with
      | note =>
        simp only [scriptMoments, hrefused, Outcome.pure] at hm
        rcases List.mem_cons.mp hm with rfl | hrest
        · rfl
        · exact ih hrest
      | giveUp =>
        simp only [scriptMoments, hrefused, Outcome.pure, List.mem_singleton] at hm
        rw [hm]

/-- All passes of a run are visited, in order, by the same engine. -/
theorem visits_eq (hr : Refuses validate) (hs : engine.state = .validating) (passes : List Pass) :
    visits validate root text engine passes = passes.map fun pass => (pass, engine) := by
  induction passes with
  | nil => rfl
  | cons pass rest ih =>
    rw [visits, runScript_eq hr hs, ih]
    rfl

namespace Engine

/-- The engine as the passes of its runs meet it. -/
def busy (engine : Engine) : Engine := { engine with state := .validating }

private theorem state_of_mem_run (hs : engine.state = .idle) (steps : List Step)
    {o : Outcome Answer}
    (ho : o ∈ engine.run steps) : o.engine.state = .idle := by
  -- every step begins and ends without a pass running
  induction steps generalizing engine with
  | nil => simp [run] at ho
  | cons s rest ih =>
    have hstep : (engine.step s).engine.state = .idle := by
      rw [step_engine hs s]
      exact hs
    rcases List.mem_cons.mp ho with rfl | hrest
    · exact hstep
    · exact ih hstep hrest

/-! ## Section 3: Sessions with any passes -/

/-- Between the steps of a session the engine is idle, and a validation that the host asks for
leaves it as it was and answers with what its passes find in the text.  In such a run, where the
engine itself answers the calls of its passes, every pass is visited by the engine in the state of
validating; so is every action of every script, and each call among them is refused and leaves that
engine unchanged. -/
theorem calls_refused_in_session (config : Config) (passes : List Pass) (collection : Collection)
    (steps : List Step) :
    (session config passes collection steps).state = .idle ∧
      (∀ o ∈ (Engine.new config passes collection).run steps, o.engine.state = .idle) ∧
      (∀ snapshot,
        ((session config passes collection steps).step (.validate snapshot)).engine =
            session config passes collection steps ∧
          ((session config passes collection steps).step (.validate snapshot)).answer =
            .diagnostics (diagnose passes snapshot.text)) ∧
      Engine.validate = validateWith Engine.validate ∧
      (∀ root text,
        visits Engine.validate root text (session config passes collection steps).busy passes =
          passes.map fun pass => (pass, (session config passes collection steps).busy)) ∧
      ∀ pass ∈ passes,
        ∀ m ∈ scriptMoments Engine.validate (session config passes collection steps).busy
            pass.script,
          m.engine = (session config passes collection steps).busy ∧
            m.engine.state = .validating ∧
            ∀ request onRefusal, m.action = .call request onRefusal →
              requestWith Engine.validate m.engine request =
                .pure m.engine (.error ⟨request.uri⟩) := by
  refine ⟨session_state, ?_, ?_, validate_eq_validateWith, ?_, ?_⟩
  · intro o ho
    exact state_of_mem_run rfl steps ho
  · intro snapshot
    have hidle : (session config passes collection steps).state = .idle := session_state
    obtain ⟨hengine, hanswer⟩ := validate_idle hidle snapshot
    rw [session_passes] at hanswer
    refine ⟨hengine, ?_⟩
    simp only [step, answered, Outcome.withAnswer, hanswer]
    rfl
  · intro root text
    exact visits_eq refuses_validate rfl passes
  -- the engine at the moment is the busy one, and that one refuses every call
  · intro pass _ m hm
    have hmet := engine_of_mem_scriptMoments refuses_validate rfl hm
    have hstate : m.engine.state = .validating := by rw [hmet]; rfl
    refine ⟨hmet, hstate, ?_⟩
    intro request _ _
    exact requestWith_eq_refusal refuses_validate hstate request

end Engine

end FormSchema
