import FormSchema.Proofs.Engine.Run

/-!
# Sessions

A host works with an engine step by step.  What a step does to the engine is said once, in
`step_engine`: it changes the collection, in one of a few ways, and nothing else.  So an engine that
starts idle is idle, with the same settings and passes, between any two steps.
-/

namespace FormSchema.Engine

variable {engine : Engine}

/-! ## Section 1: One step -/

/-- A collection in which the findings on a document have become its entry. -/
def record (engine : Engine) (snapshot : Snapshot) (c : Collection) : Collection :=
  c.set snapshot.uri (diagnose engine.passes snapshot.text)

/-- The same for a schema document; another document is passed over. -/
def recordIfSchema (engine : Engine) (snapshot : Snapshot) (c : Collection) : Collection :=
  if engine.isSchemaDocument snapshot then engine.record snapshot c else c

/-- What a step does to the collection of an engine. -/
def Step.update (engine : Engine) : Step → Collection → Collection
  | .publish snapshot, c => engine.record snapshot c
  | .changed snapshot, c => engine.recordIfSchema snapshot c
  | .activated (some snapshot), c => engine.recordIfSchema snapshot c
  | .closed snapshot, c => c.delete snapshot.uri
  | .dispose, c => c.clear
  | .set uri found, c => c.set uri found
  | .delete uri, c => c.delete uri
  | .clear, c => c.clear
  | _, c => c

private theorem publishIfSchema_engine (hs : engine.state = .idle) (snapshot : Snapshot) :
    (engine.publishIfSchema snapshot).engine =
      { engine with collection := engine.recordIfSchema snapshot engine.collection } := by
  unfold publishIfSchema recordIfSchema
  split
  · exact (publish_idle hs snapshot).1
  · rfl

/-- A step changes the collection and nothing else. -/
theorem step_engine (hs : engine.state = .idle) (s : Step) :
    (engine.step s).engine = { engine with collection := s.update engine engine.collection } := by
  -- only three steps run passes; the others act on the collection or look at it
  cases s with
  | validate snapshot => exact (validate_idle hs snapshot).1
  | publish snapshot => exact (publish_idle hs snapshot).1
  | changed snapshot => exact publishIfSchema_engine hs snapshot
  | activated snapshot =>
    cases snapshot with
    | none => rfl
    | some snapshot => exact publishIfSchema_engine hs snapshot
  | _ => rfl

/-! ## Section 2: Sequences of steps -/

/-- The engine after a sequence of steps. -/
def after (engine : Engine) (steps : List Step) : Engine :=
  steps.foldl (fun e s => (e.step s).engine) engine

@[simp] theorem after_nil (engine : Engine) : engine.after [] = engine := rfl

@[simp] theorem after_cons (engine : Engine) (s : Step) (steps : List Step) :
    engine.after (s :: steps) = (engine.step s).engine.after steps := rfl

/-- The outcomes of a run are those of its steps, each made by the engine after the steps before. -/
theorem getElem?_run (engine : Engine) (steps : List Step) (i : Nat) :
    (engine.run steps)[i]? = steps[i]?.map (engine.after (steps.take i)).step := by
  -- the engine of each step is the one that the steps before it have left
  induction steps generalizing engine i with
  | nil => simp [run]
  | cons s rest ih =>
    cases i with
    | zero => simp [run]
    | succ i => simpa [run] using ih (engine.step s).engine i

/-- Whatever the steps, the engine keeps its settings and passes and is idle. -/
theorem after_eq (hs : engine.state = .idle) (steps : List Step) :
    engine.after steps = { engine with collection := (engine.after steps).collection } := by
  induction steps generalizing engine with
  | nil => rfl
  | cons s rest ih =>
    -- the step changes the collection alone, so the engine stays idle
    have hstep := step_engine hs s
    rw [after_cons, hstep]
    exact ih hs

/-- The engine of a session: a new engine after some steps. -/
def session (config : Config) (passes : List Pass) (collection : Collection) (steps : List Step) :
    Engine :=
  (Engine.new config passes collection).after steps

variable {config : Config} {passes : List Pass} {collection : Collection} {steps : List Step}

/-- After any steps the engine is idle. -/
theorem session_state : (session config passes collection steps).state = .idle := by
  rw [session, after_eq rfl]
  rfl

/-- No step changes the passes. -/
theorem session_passes : (session config passes collection steps).passes = passes := by
  rw [session, after_eq rfl]
  rfl

/-- After any session a text is diagnosed by the passes alone. -/
theorem validate_session (config : Config) (passes : List Pass) (collection : Collection)
    (steps : List Step) (snapshot : Snapshot) :
    ((session config passes collection steps).validate snapshot).answer =
      .ok (diagnose passes snapshot.text) := by
  rw [(validate_idle session_state snapshot).2, session_passes]

end FormSchema.Engine
