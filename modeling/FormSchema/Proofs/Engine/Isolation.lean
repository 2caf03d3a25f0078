import FormSchema.Proofs.Engine.Reentrancy
import FormSchema.Proofs.Engine.Verdict
import FormSchema.Proofs.Json.Order

/-!
# Passes do not disturb one another

What a validation finds is put together from what each pass finds when it is run alone.  A pass that
gives up leaves no trace in that: lists of passes that differ only in passes which give up answer
alike, publish alike and leave alike engines, in a single call and in a whole session.
-/

namespace FormSchema

/-! ## Section 1: A pass on its own -/

/-- What a pass finds in a document when it is run alone, with nothing found before, by an engine
that is validating.  The answer is nothing if the pass gives up. -/
def Pass.alone? (engine : Engine) (root : Container) (text : Text) (pass : Pass) :
    Option (List Diagnostic) :=
  (runScript Engine.validate root text engine.busy [] pass.script).answer

variable {engine : Engine} {root : Container} {text : Text}

private theorem Pass.alone?_eq (engine : Engine) (root : Container) (text : Text) (pass : Pass) :
    pass.alone? engine root text = pass.contribution? root text := by
  rw [alone?, runScript_eq Engine.refuses_validate rfl]
  show (Action.contribution? root text pass.script).map ([] ++ ·) = _
  simp [contribution?]

/-! ## Section 2: Lists that differ in passes which give up -/

/-- Two lists of passes that differ only in passes which give up on a document: such passes stand
anywhere in either list, and all others stand in both, in the same order. -/
inductive DifferInGivingUp (engine : Engine) (root : Container) (text : Text) :
    List Pass → List Pass → Prop
  | nil : DifferInGivingUp engine root text [] []
  | both (pass : Pass) {passes others : List Pass}
      (h : DifferInGivingUp engine root text passes others) :
      DifferInGivingUp engine root text (pass :: passes) (pass :: others)
  | left {pass : Pass} {passes others : List Pass} (hp : pass.alone? engine root text = none)
      (h : DifferInGivingUp engine root text passes others) :
      DifferInGivingUp engine root text (pass :: passes) others
  | right {pass : Pass} {passes others : List Pass} (hp : pass.alone? engine root text = none)
      (h : DifferInGivingUp engine root text passes others) :
      DifferInGivingUp engine root text passes (pass :: others)

/-- Passes that give up contribute nothing, wherever they stand. -/
theorem DifferInGivingUp.contributions_eq {passes others : List Pass}
    (h : DifferInGivingUp engine root text passes others) :
    passes.flatMap (fun pass => (pass.contribution? root text).getD []) =
      others.flatMap fun pass => (pass.contribution? root text).getD [] := by
  -- a pass that gives up adds nothing, wherever it stands
  induction h with
  | nil => rfl
  | both pass h ih => rw [List.flatMap_cons, List.flatMap_cons, ih]
  | left hp h ih =>
    rw [Pass.alone?_eq] at hp
    rw [List.flatMap_cons, hp, ih]
    rfl
  | right hp h ih =>
    rw [Pass.alone?_eq] at hp
    rw [List.flatMap_cons, hp, ih]
    rfl

private theorem DifferInGivingUp.diagnose_eq {passes others : List Pass}
    (h : ∀ root, Json.parse text = .ok (.obj root) →
      DifferInGivingUp engine root text passes others) :
    diagnose others text = diagnose passes text := by
  unfold diagnose
  -- only a document is shown to the passes
  split
  · rfl
  · next root hp => exact (h root hp).contributions_eq.symm
  · rfl

namespace Engine

/-! ## Section 3: The same engine with other passes -/

/-- An engine with other passes. -/
def withPasses (engine : Engine) (passes : List Pass) : Engine := { engine with passes := passes }

variable {passes : List Pass}

/-- With other passes that find the same, validation answers alike and leaves the same behind. -/
private theorem validate_withPasses (hs : engine.state = .idle) {snapshot : Snapshot}
    (h : diagnose passes snapshot.text = diagnose engine.passes snapshot.text) :
    ((engine.withPasses passes).validate snapshot).answer = (engine.validate snapshot).answer ∧
      ((engine.withPasses passes).validate snapshot).engine =
        (engine.validate snapshot).engine.withPasses passes := by
  have hs' : (engine.withPasses passes).state = .idle := hs
  obtain ⟨hengine, hanswer⟩ := validate_idle hs snapshot
  obtain ⟨hengine', hanswer'⟩ := validate_idle hs' snapshot
  refine ⟨?_, ?_⟩
  · rw [hanswer, hanswer', ← h]
    rfl
  · rw [hengine, hengine']

private theorem publish_withPasses (hs : engine.state = .idle) {snapshot : Snapshot}
    (h : diagnose passes snapshot.text = diagnose engine.passes snapshot.text) :
    ((engine.withPasses passes).publish snapshot).answer = (engine.publish snapshot).answer ∧
      ((engine.withPasses passes).publish snapshot).engine =
        (engine.publish snapshot).engine.withPasses passes := by
  have hs' : (engine.withPasses passes).state = .idle := hs
  obtain ⟨hengine, hanswer⟩ := publish_idle hs snapshot
  obtain ⟨hengine', hanswer'⟩ := publish_idle hs' snapshot
  refine ⟨?_, ?_⟩
  · rw [hanswer, hanswer', ← h]
    rfl
  · rw [hengine, hengine', ← h]
    rfl

/-! ## Section 4: Sessions with other passes -/

section SameFindings

variable (h : ∀ text, diagnose passes text = diagnose engine.passes text)
include h

private theorem publishIfSchema_withPasses (hs : engine.state = .idle) (snapshot : Snapshot) :
    ((engine.withPasses passes).publishIfSchema snapshot).answer =
        (engine.publishIfSchema snapshot).answer ∧
      ((engine.withPasses passes).publishIfSchema snapshot).engine =
        (engine.publishIfSchema snapshot).engine.withPasses passes := by
  obtain ⟨hanswer, hengine⟩ := publish_withPasses hs (h snapshot.text)
  -- whether a document is a schema document is not asked of the passes
  have hschema : (engine.withPasses passes).isSchemaDocument snapshot =
      engine.isSchemaDocument snapshot := rfl
  unfold publishIfSchema
  rw [hschema]
  split
  · exact ⟨congrArg Answer.ofResult hanswer, hengine⟩
  · exact ⟨rfl, rfl⟩

/-- A step answers alike and changes the engine alike if the passes find alike in every text. -/
theorem step_withPasses (hs : engine.state = .idle) (s : Step) :
    ((engine.withPasses passes).step s).answer = (engine.step s).answer ∧
      ((engine.withPasses passes).step s).engine =
        (engine.step s).engine.withPasses passes := by
  -- only two kinds of steps run passes; the others change nothing but the collection
  cases s with
  | validate snapshot =>
    obtain ⟨hanswer, hengine⟩ := validate_withPasses hs (h snapshot.text)
    exact ⟨congrArg Answer.ofResult hanswer, hengine⟩
  | publish snapshot =>
    obtain ⟨hanswer, hengine⟩ := publish_withPasses hs (h snapshot.text)
    exact ⟨congrArg Answer.ofResult hanswer, hengine⟩
  | changed snapshot => exact publishIfSchema_withPasses h hs snapshot
  | activated snapshot =>
    cases snapshot with
    | none => exact ⟨rfl, rfl⟩
    | some snapshot => exact publishIfSchema_withPasses h hs snapshot
  | _ => exact ⟨rfl, rfl⟩

/-- A session with other passes that find the same answers alike, step by step. -/
private theorem run_withPasses (hs : engine.state = .idle) (steps : List Step) :
    ((engine.withPasses passes).run steps).map (·.answer) =
        (engine.run steps).map (·.answer) ∧
      (engine.withPasses passes).after steps = (engine.after steps).withPasses passes := by
  -- on the steps, each of which hands on two engines that again differ in their passes only
  induction steps generalizing engine with
  | nil => exact ⟨rfl, rfl⟩
  | cons s rest ih =>
    obtain ⟨hanswer, hengine⟩ := step_withPasses h hs s
    have hstep := step_engine hs s
    have hidle : (engine.step s).engine.state = .idle := by
      rw [hstep]
      exact hs
    have hsame : ∀ text, diagnose passes text = diagnose (engine.step s).engine.passes text := by
      rw [hstep]
      exact h
    obtain ⟨hanswers, hlast⟩ := ih hsame hidle
    refine ⟨?_, ?_⟩
    · simp only [run, List.map_cons]
      rw [hanswer, hengine, hanswers]
    · rw [after_cons, after_cons, hengine, hlast]

end SameFindings

/-! ## Section 5: Isolation -/

/-- An idle engine answers a document with what its passes find when each is run alone, in their
order, and a pass that gives up finds nothing.  So passes that give up can be put in or left out
anywhere: the engine answers as before, and what it publishes and the engine that it becomes are the
same but for the passes themselves.  The same holds of every session that follows if those passes
give up on all documents. -/
theorem passes_isolated (engine : Engine) (hs : engine.state = .idle) (snapshot : Snapshot)
    (root : Container) (hp : Json.parse snapshot.text = .ok (.obj root)) :
    (engine.validate snapshot).answer =
        .ok (engine.passes.flatMap fun pass =>
          (pass.alone? engine root snapshot.text).getD []) ∧
      ∀ others : List Pass,
        (DifferInGivingUp engine root snapshot.text engine.passes others →
          ((engine.withPasses others).validate snapshot).answer =
              (engine.validate snapshot).answer ∧
            ((engine.withPasses others).validate snapshot).engine =
              (engine.validate snapshot).engine.withPasses others ∧
            ((engine.withPasses others).publish snapshot).answer =
              (engine.publish snapshot).answer ∧
            ((engine.withPasses others).publish snapshot).engine =
              (engine.publish snapshot).engine.withPasses others) ∧
        ((∀ root text, DifferInGivingUp engine root text engine.passes others) →
          ∀ steps : List Step,
            ((engine.withPasses others).run steps).map (·.answer) =
                (engine.run steps).map (·.answer) ∧
              (engine.withPasses others).after steps =
                (engine.after steps).withPasses others) := by
  refine ⟨?_, fun others => ⟨fun hdiffer => ?_, fun hdiffer steps => ?_⟩⟩
  · rw [(validate_idle hs snapshot).2, diagnose_document hp]
    simp only [Pass.alone?_eq]
  · -- the text reads as this one document, so nothing else is shown to the passes
    have hsame : diagnose others snapshot.text = diagnose engine.passes snapshot.text := by
      apply DifferInGivingUp.diagnose_eq
      intro root' hp'
      rw [hp] at hp'
      cases hp'
      exact hdiffer
    obtain ⟨hanswer, hengine⟩ := validate_withPasses hs hsame
    exact ⟨hanswer, hengine, publish_withPasses hs hsame⟩
  · apply run_withPasses _ hs
    intro text
    exact DifferInGivingUp.diagnose_eq fun root _ => hdiffer root text

/-- A field whose key is not its name. -/
def misnamed : Container := [("a", .obj [("key", .str "b")])]

private theorem parse_misnamed :
    Json.parse ((Json.obj misnamed).canonical none) = .ok (.obj misnamed) :=
  (Json.parse_canonical_of_increasing (by decide) (by decide) none).mpr (by decide)

private theorem alone?_misnamed (engine : Engine) (text : Text) :
    ∃ d, Check.keyConsistency.pass.alone? engine misnamed text = some [d] := by
  have hflat : Field.nested? ⟨"a", [("key", .str "b")]⟩ = none := rfl
  have hbreaks : Check.keyConsistency.Breaks ⟨"a", [("key", .str "b")]⟩ :=
    ⟨.str "b", rfl, by simp [Text.ofString]⟩
  -- the document is shallow, so that the check gets through
  have hcompletes : Check.keyConsistency.Completes misnamed :=
    Check.completes_of_depth_lt (Json.readable_of_parse parse_misnamed) (by decide) _
  rw [Pass.alone?_eq, Check.contribution?_pass, if_pos hcompletes, Check.reports, misnamed,
    Container.preorder_cons_flat hflat, Container.preorder]
  simp [hbreaks]

/-- Beside the check of keys there are two passes that give up: one that has run the same check
before, and one that asks for a publication.  The finding on the one field is reported once. -/
theorem misnamed_reported_once :
    (Engine.new Config.default [Check.keyConsistency.pass] (.empty "shared")).state = .idle ∧
      Json.parse ((Json.obj misnamed).canonical none) = .ok (.obj misnamed) ∧
      ∃ d, ((Engine.new Config.default
        [⟨"halfway", Check.keyConsistency.pass.script ++ [.giveUp]⟩, Check.keyConsistency.pass,
          ⟨"reentrant", [.call (.publish (.ofText "inner.json" "[]")) .giveUp]⟩]
        (.empty "shared")).validate
          (.ofText "a.json" ((Json.obj misnamed).canonical none))).answer = .ok [d] := by
  have h := passes_isolated
    (Engine.new Config.default [Check.keyConsistency.pass] (.empty "shared")) rfl
    (.ofText "a.json" ((Json.obj misnamed).canonical none)) misnamed parse_misnamed
  have hothers := (h.2 [⟨"halfway", Check.keyConsistency.pass.script ++ [.giveUp]⟩,
    Check.keyConsistency.pass,
    ⟨"reentrant", [.call (.publish (.ofText "inner.json" "[]")) .giveUp]⟩]).1
    (.right ?halfway (.both _ (.right rfl .nil)))
  case halfway =>
    -- whatever the check has found, the script ends by giving up
    rw [Pass.alone?_eq]
    exact Action.contribution?_append_giveUp _ _ _
  obtain ⟨d, hd⟩ := alone?_misnamed
    (Engine.new Config.default [Check.keyConsistency.pass] (.empty "shared"))
    ((Json.obj misnamed).canonical none)
  refine ⟨rfl, parse_misnamed, d, hothers.1.trans (h.1.trans (congrArg Except.ok ?_))⟩
  rw [Engine.new, List.flatMap_cons, List.flatMap_nil, List.append_nil]
  exact congrArg (Option.getD · []) hd

end Engine

end FormSchema
