import FormSchema.Proofs.Engine.Session
import FormSchema.Proofs.Entries
import FormSchema.Proofs.Text.Order

/-!
# The published diagnostics as a map

Seen from outside, a collection is a map from addresses to lists.  What a session leaves under an
address is decided by the last of its steps that touched the address, and by no other: a publication
leaves what validation finds in the published text, setting leaves the given list, and closing,
deleting, clearing and disposing leave nothing.
-/

namespace FormSchema

/-! ## Section 1: Collections and maps -/

/-- A collection shows the entries of a map: reading an absent entry gives the empty list, the
present addresses are those of the map, and they are enumerated in strictly increasing order. -/
structure Collection.Refines (c : Collection) (entry : Text → Option (List Diagnostic)) : Prop where
  get : ∀ uri, c.get uri = (entry uri).getD []
  contains : ∀ uri, c.contains uri = (entry uri).isSome
  mem_uris : ∀ uri, uri ∈ c.uris ↔ (entry uri).isSome = true
  uris_increasing : c.uris.Pairwise (· < ·)
  size : c.size = c.uris.length

namespace Collection

/-- A collection in which no address has two entries shows the map of its entries. -/
theorem refines_get? {c : Collection} (hd : c.entries.Distinct) :
    c.Refines fun uri => c.entries.get? uri where
  get _ := rfl
  contains _ := rfl
  mem_uris uri := by
    rw [uris, Text.mem_sort, ← Entries.has_iff]
    rfl
  uris_increasing := Text.sort_strictly_increasing hd
  size := by
    rw [uris, Text.length_sort, Entries.names, List.length_map]
    rfl

end Collection

namespace Engine

/-- A publication leaves what it answers under the address of the document. -/
theorem get_publish {engine : Engine} (hs : engine.state = .idle) (snapshot : Snapshot) :
    (engine.publish snapshot).engine.collection.get snapshot.uri =
      diagnose engine.passes snapshot.text := by
  rw [(publish_idle hs snapshot).1, Collection.get, Collection.set, Entries.get?_put, if_pos rfl]
  rfl

/-! ## Section 2: What a step leaves -/

/-- What a step leaves under an address that it touches: the list that stands there afterwards, or
that none does.  The answer is nothing if the step does not touch the address. -/
def Step.leaves? (engine : Engine) (uri : Text) : Step → Option (Option (List Diagnostic))
  | .publish snapshot =>
    if snapshot.uri = uri then some (some (diagnose engine.passes snapshot.text)) else none
  | .changed snapshot | .activated (some snapshot) =>
    if snapshot.uri = uri ∧ engine.isSchemaDocument snapshot then
      some (some (diagnose engine.passes snapshot.text))
    else none
  | .set uri' found => if uri' = uri then some (some found) else none
  | .closed snapshot => if snapshot.uri = uri then some none else none
  | .delete uri' => if uri' = uri then some none else none
  | .dispose | .clear => some none
  | .validate _ | .activated none | .isSchema _ | .contains _ | .get _ | .name => none

/-- What stands under an address after a session: what the last step that touched the address has
left there, or else what stood there before. -/
def entryAfter (engine : Engine) (steps : List Step) (uri : Text) : Option (List Diagnostic) :=
  ((steps.filterMap (Step.leaves? engine uri)).getLast?).getD (engine.collection.entries.get? uri)

/-- A step does not look at the collection to decide what it leaves. -/
theorem Step.leaves?_withCollection (engine : Engine) (c : Collection) (uri : Text) (s : Step) :
    s.leaves? { engine with collection := c } uri = s.leaves? engine uri := by
  cases s with
  | activated snapshot => cases snapshot <;> rfl
  | _ => rfl

/-- A published document is entered under its address, and nothing else changes. -/
private theorem get?_record (engine : Engine) (snapshot : Snapshot) (c : Collection) (uri : Text) :
    (engine.record snapshot c).entries.get? uri =
      if snapshot.uri = uri then some (diagnose engine.passes snapshot.text)
      else c.entries.get? uri :=
  Entries.get?_put _ _ _ _

private theorem get?_recordIfSchema (engine : Engine) (snapshot : Snapshot) (c : Collection)
    (uri : Text) :
    (engine.recordIfSchema snapshot c).entries.get? uri =
      if snapshot.uri = uri ∧ engine.isSchemaDocument snapshot then
        some (diagnose engine.passes snapshot.text)
      else c.entries.get? uri := by
  unfold recordIfSchema
  -- a document that is passed over leaves the collection as it is
  by_cases hschema : engine.isSchemaDocument snapshot = true
  · simp only [hschema, if_true, and_true, get?_record]
  · simp [hschema]

/-- A step leaves under an address what it says it leaves, and otherwise what was there. -/
private theorem Step.get?_update (engine : Engine) (c : Collection) (s : Step) (uri : Text) :
    (s.update engine c).entries.get? uri = (s.leaves? engine uri).getD (c.entries.get? uri) := by
  -- each kind of step: what it leaves under the address, or what was there before
  cases s with
  | publish snapshot =>
    rw [update, get?_record, leaves?]
    split <;> rfl
  | changed snapshot =>
    rw [update, get?_recordIfSchema, leaves?]
    split <;> rfl
  | activated snapshot =>
    cases snapshot with
    | none => rfl
    | some snapshot =>
      rw [update, get?_recordIfSchema, leaves?]
      split <;> rfl
  | closed snapshot =>
    rw [update, Collection.delete, Entries.get?_filter_ne, leaves?]
    split <;> rfl
  | delete uri' =>
    rw [update, Collection.delete, Entries.get?_filter_ne, leaves?]
    split <;> rfl
  | set uri' found =>
    rw [update, Collection.set, Entries.get?_put, leaves?]
    split <;> rfl
  | _ => rfl

private theorem distinct_recordIfSchema {c : Collection} (hd : c.entries.Distinct) (engine : Engine)
    (snapshot : Snapshot) : (engine.recordIfSchema snapshot c).entries.Distinct := by
  unfold recordIfSchema
  split
  · exact hd.put _ _
  · exact hd

private theorem Step.distinct_update {c : Collection} (hd : c.entries.Distinct) (engine : Engine)
    (s : Step) : (s.update engine c).entries.Distinct := by
  -- a step puts an entry, drops one, or leaves the collection as it is
  cases s with
  | publish snapshot => exact hd.put _ _
  | changed snapshot => exact distinct_recordIfSchema hd engine snapshot
  | activated snapshot =>
    cases snapshot with
    | none => exact hd
    | some snapshot => exact distinct_recordIfSchema hd engine snapshot
  | closed snapshot => exact hd.filter _
  | delete uri => exact hd.filter _
  | set uri found => exact hd.put _ _
  | dispose => exact List.nodup_nil
  | clear => exact List.nodup_nil
  | _ => exact hd

/-! ## Section 3: Sessions -/

private theorem entryAfter_cons (engine : Engine) (s : Step) (steps : List Step) (uri : Text) :
    engine.entryAfter (s :: steps) uri =
      { engine with collection := s.update engine engine.collection }.entryAfter steps uri := by
  -- what the later steps leave does not depend on the collection that they find
  have hleaves : Step.leaves? { engine with collection := s.update engine engine.collection } uri =
      Step.leaves? engine uri := funext (Step.leaves?_withCollection engine _ uri)
  simp only [entryAfter, hleaves, Step.get?_update, List.filterMap_cons]
  cases s.leaves? engine uri with
  | none => rfl
  | some entry => simp [List.getLast?_cons]

/-- The invariant of a session: no address has two entries, and under each stands what the session
has left there. -/
theorem after_collection (engine : Engine) (hs : engine.state = .idle)
    (hd : engine.collection.entries.Distinct) (steps : List Step) :
    (engine.after steps).collection.entries.Distinct ∧
      ∀ uri, (engine.after steps).collection.entries.get? uri = engine.entryAfter steps uri := by
  induction steps generalizing engine with
  | nil => exact ⟨hd, fun _ => rfl⟩
  | cons s rest ih =>
    -- one step keeps both parts of the invariant; the rest is the induction hypothesis
    rw [after_cons, step_engine hs s]
    simp only [entryAfter_cons]
    exact ih _ hs (Step.distinct_update hd engine s)

/-- After any session the collection shows, under each address, what the last step that touched the
address has left there.  What a publication leaves is what validation answers on its text, and a
call that a pass makes during a run leaves the engine, and so the collection, as it was. -/
theorem session_refines_entryAfter (config : Config) (passes : List Pass)
    (collection : Collection) (hd : collection.entries.Distinct) (steps : List Step) :
    (session config passes collection steps).collection.Refines
        ((Engine.new config passes collection).entryAfter steps) ∧
      (∀ snapshot, ((session config passes collection steps).validate snapshot).answer =
        .ok (diagnose passes snapshot.text)) ∧
      ∀ (engine : Engine) (request : Request), engine.state = .validating →
        requestWith Engine.validate engine request = .pure engine (.error ⟨request.uri⟩) := by
  obtain ⟨hdistinct, hentry⟩ := after_collection (Engine.new config passes collection) rfl hd steps
  refine ⟨?_, ?_, ?_⟩
  · rw [session, ← funext hentry]
    exact Collection.refines_get? hdistinct
  · intro snapshot
    rw [(validate_idle session_state snapshot).2, session_passes]
  · intro engine request hs
    exact requestWith_eq_refusal refuses_validate hs request

/-- A session in which a pass publishes another document, the collection is cleared and a document
is published again: of all addresses, only that of the last publication is left. -/
theorem contains_after_republication :
    Entries.Distinct [(Text.ofString "a.json", ([] : List Diagnostic))] ∧
      ∀ uri ∈ (["a.json", "b.json", "inner.json"] : List Text),
        (session Config.default [⟨"nested", [.call (.publish (.ofText "inner.json" "[]")) .note]⟩]
          ⟨"shared", [("a.json", [])]⟩
          [.publish (.ofText "b.json" "\x7b"), .clear, .publish (.ofText "b.json" "\x7b\x7d"),
            .closed (.ofText "c.json" "")]).collection.contains uri =
          decide (uri = Text.ofString "b.json") := by
  have hd : Entries.Distinct [(Text.ofString "a.json", ([] : List Diagnostic))] := by decide
  -- the last touch of each name decides, whatever the pass asks for
  have h := (session_refines_entryAfter Config.default
    [⟨"nested", [.call (.publish (.ofText "inner.json" "[]")) .note]⟩] ⟨"shared", [("a.json", [])]⟩
    hd [.publish (.ofText "b.json" "\x7b"), .clear, .publish (.ofText "b.json" "\x7b\x7d"),
      .closed (.ofText "c.json" "")]).1
  refine ⟨hd, ?_⟩
  intro uri huri
  simp only [List.mem_cons, List.not_mem_nil, or_false] at huri
  rw [h.contains]
  rcases huri with rfl | rfl | rfl <;> rfl

end Engine

end FormSchema
