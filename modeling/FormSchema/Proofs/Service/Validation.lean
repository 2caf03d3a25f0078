import FormSchema.Proofs.Datum.Canonical
import FormSchema.Proofs.Engine.Verdict
import FormSchema.Proofs.Text.Utf8
import FormSchema.Service.Application

/-!
# The service validates what is sent

A request to validate a text is answered with what validation finds in it.  A response with
surrogates in one of its strings cannot be delivered, and of the strings in a finding only the
message can hold any.  Every text without surrogates is the text of some request.
-/

namespace FormSchema.Service

/-! ## Section 1: Delivery -/

private theorem scalarsOfItems_eq_flatMap (items : List Json) :
    scalarsOfItems items = items.flatMap scalars := by
  induction items with
  | nil => rfl
  | cons v rest ih => rw [scalarsOfItems, ih, List.flatMap_cons]

private theorem scalarsOfEntries_eq_flatMap (es : Entries Json) :
    scalarsOfEntries es = es.flatMap fun e => scalars e.2 := by
  induction es with
  | nil => rfl
  | cons e rest ih => rw [scalarsOfEntries, ih, List.flatMap_cons]

/-- Whether no string in a value holds surrogates. -/
def IsEncodable (v : Json) : Prop := ∀ u ∈ scalars v, surrogatesIn? u = none

private theorem isEncodable_str {s : Text} : IsEncodable (.str s) ↔ Utf8.unencodable? s = none :=
  List.forall_mem_singleton

private theorem isEncodable_int (n : Int) :
    IsEncodable (.int n) := List.forall_mem_singleton.mpr rfl

private theorem isEncodable_arr {items : List Json} :
    IsEncodable (.arr items) ↔ ∀ v ∈ items, IsEncodable v := by
  rw [IsEncodable, scalars, scalarsOfItems_eq_flatMap, List.forall_mem_flatMap]
  rfl

/-- An object is encoded if its values are; here its names are known to be plain. -/
private theorem isEncodable_obj {es : Entries Json} :
    IsEncodable (.obj es) ↔ ∀ e ∈ es, IsEncodable e.2 := by
  rw [IsEncodable, scalars, scalarsOfEntries_eq_flatMap, List.forall_mem_flatMap]
  rfl

private theorem deliver_succeeded {body : Json} (h : IsEncodable body) :
    (succeeded body).deliver = .ok (succeeded body) := by
  have hnone : faultByString? body = none := by
    rw [faultByString?, List.findSome?_eq_none_iff.mpr h]
    rfl
  have hbody : (succeeded body).body.bind
      (if (succeeded body).status = 200 then faultByString? else faultAsWhole?) = none := hnone
  rw [Response.deliver, hbody]

/-- Of the strings in a finding only the message can hold surrogates. -/
theorem isEncodable_finding {text : Text} {found : List Diagnostic} (h : Verdict text found)
    {d : Diagnostic} (hd : d ∈ found) (hmessage : Utf8.unencodable? d.message = none) :
    IsEncodable d.toJson := by
  obtain ⟨range, message, rule, rfl⟩ := h.exists_eq_error hd
  have hrule : Utf8.unencodable? rule.id = none := by cases rule <;> rfl
  -- numbers can always be sent, so that only the message is in question
  have hposition (p : Position) : IsEncodable p.toJson :=
    isEncodable_obj.mpr (List.forall_mem_cons.mpr
      ⟨isEncodable_int _, List.forall_mem_singleton.mpr (isEncodable_int _)⟩)
  have hrange : IsEncodable range.toJson :=
    isEncodable_obj.mpr (List.forall_mem_cons.mpr
      ⟨hposition _, List.forall_mem_singleton.mpr (hposition _)⟩)
  rw [Diagnostic.toJson, isEncodable_obj]
  simp only [List.forall_mem_cons, List.not_mem_nil, false_imp_iff, implies_true, and_true]
  exact ⟨hrange, isEncodable_str.mpr hmessage, isEncodable_str.mpr rfl, isEncodable_str.mpr hrule,
    isEncodable_str.mpr rfl⟩

/-! ## Section 2: Requests -/

/-- A request to validate a text under an address, which may be left out. -/
structure Sends (r : Request) (uri text : Text) : Prop where
  method : r.method = "POST"
  path : r.path = "/validate"
  body : ∃ body, fieldsOf r.contentType r.body = .ok body ∧
    Entries.get? "text" body = some (.str text) ∧
    (Entries.get? "uri" body).getD (.str Engine.untitled) = .str uri

/-- An object with a text in it, as it is sent. -/
def textOnly (text : Text) : Text :=
  "\x7b\"text\": " ++ (Json.printString false text ++ "\x7d\n")

/-- A request to validate a text under no address of its own. -/
def validationOf (text : Text) : Request :=
  ⟨"POST", "/validate", Utf8.encode "application/json", Utf8.encode (textOnly text)⟩

private theorem parseLenient_textOnly (text : Text) :
    Json.parseLenient (textOnly text) = .ok (.obj [("text", .str text)]) := by
  have hread : (Json.obj [("text", .str text)]).ReadBack Json.maxDepth :=
    Json.readBack_obj (List.nodup_singleton _) (List.forall_mem_singleton.mpr (Json.readBack_str _))
  -- the body is the canonical text of a small object, which is read again
  have htext : (Json.obj [("text", .str text)]).canonical none = textOnly text := by
    rw [Json.canonical, Json.sortNames_single]
    show Text.ofString "\x7b" ++ Text.join ", " ["\"text\": " ++ Json.printString false text] ++
      [] ++ Text.ofString "\x7d" ++ Text.ofString "\n" = _
    rw [Text.join, List.intercalate_singleton, List.append_nil, List.append_assoc,
      List.append_assoc, List.append_assoc]
    rfl
  rw [← htext, Json.parseLenient_of_readBack hread none, Json.sortNames_single]

/-- Every text without surrogates can be sent. -/
theorem sends_validationOf {text : Text} (h : ∀ c ∈ text, c.isSurrogate = false) :
    Sends (validationOf text) Engine.untitled text := by
  have hscalar : ∀ c ∈ textOnly text, c.isSurrogate = false :=
    List.forall_mem_append.mpr ⟨by decide,
      List.forall_mem_append.mpr ⟨Json.isSurrogate_printString _ h, by decide⟩⟩
  have hdecode := Utf8.decode_eq_ok_iff.mpr ⟨rfl, hscalar⟩
  -- the body begins with four octets of ASCII, and so neither with zeros nor with a mark
  have hencoding : Encoding.ofOctets (Utf8.encode (textOnly text)) = .utf8 := rfl
  have hsome : ¬(Utf8.encode (textOnly text)).isEmpty = true := Bool.false_ne_true
  have hjson : isJsonType (headerText (Utf8.encode "application/json")) = true := rfl
  refine ⟨rfl, rfl, [("text", .str text)], ?_, rfl, rfl⟩
  rw [validationOf, fieldsOf, if_neg hsome, if_pos hjson, jsonFields, hencoding, Encoding.decode?,
    hdecode]
  show fieldsOfText (textOnly text) = _
  rw [fieldsOfText, parseLenient_textOnly]

/-! ## Section 3: Answers -/

/-- The answer with some findings about a document. -/
def validated (uri : Text) (found : List Diagnostic) : Json :=
  .obj [("uri", .str uri), ("diagnostics", .arr (found.map (·.toJson))),
    ("count", .int found.length)]

private theorem field_text {name text : Text} {body : Entries Json}
    (h : Entries.get? name body = some (.str text)) : field textOf name body = .ok text := by
  rw [field, h]
  rfl

private theorem fieldOr_text {name text other : Text} {body : Entries Json}
    (h : (Entries.get? name body).getD (.str other) = .str text) :
    fieldOr textOf name other body = .ok text := by
  rw [fieldOr, Entries.has]
  cases hget : Entries.get? name body with
  | none =>
    rw [hget] at h
    exact congrArg Except.ok (Json.str.inj h)
  | some v =>
    rw [hget] at h
    exact field_text (hget.trans (congrArg some h))

/-- A request with a text of ordinary length is answered with the findings in it. -/
private theorem answer_validate {s : Settings} {r : Request} {uri text : Text}
    (h : Sends r uri text)
    (hsize : text.length ≤ s.maxDocumentChars) :
    answer s r = succeeded (validated uri (validateText uri text)) := by
  obtain ⟨body, hbody, htext, huri⟩ := h.body
  have hroute : Route.ofPath? r.path = some .validate := by
    rw [h.path]
    rfl
  have hmethod : Route.validate.methods.contains r.method = true := by
    rw [h.method]
    decide
  have hsmall : ¬isTooLarge s text = true := by
    rw [isTooLarge, decide_eq_true_eq]
    exact Int.not_lt.mpr hsize
  -- the fields are read, and the text is small enough
  have hrespond : validateResponse s body = succeeded (validated uri (validateText uri text)) := by
    simp only [validateResponse, field_text htext, fieldOr_text huri]
    exact if_neg hsmall
  rw [answer, hroute]
  simp only [hmethod, if_true, Route.respond, withFields, hbody, hrespond]

/-- A request to validate a text that is not too large is answered with the findings, if neither the
address nor a message holds surrogates. -/
theorem respond_validate {s : Settings} {r : Request} {uri text : Text} (h : Sends r uri text)
    (hsize : text.length ≤ s.maxDocumentChars) (huri : Utf8.unencodable? uri = none)
    (hmessages : ∀ d ∈ validateText uri text, Utf8.unencodable? d.message = none) :
    respond s r = .ok ⟨200, some (validated uri (validateText uri text))⟩ := by
  have hverdict : Verdict text (validateText uri text) := by
    rw [validateText_eq]
    exact verdict_diagnose_defaults text
  rw [respond, answer_validate h hsize]
  refine deliver_succeeded (isEncodable_obj.mpr (List.forall_mem_cons.mpr
    ⟨isEncodable_str.mpr huri, List.forall_mem_cons.mpr ⟨isEncodable_arr.mpr ?_, ?_⟩⟩))
  · exact List.forall_mem_map.mpr fun d hd => isEncodable_finding hverdict hd (hmessages d hd)
  · exact List.forall_mem_singleton.mpr (isEncodable_int _)

end FormSchema.Service
