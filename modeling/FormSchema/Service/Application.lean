import FormSchema.Assist.Completion
import FormSchema.Engine
import FormSchema.Report
import FormSchema.Service.Body
import FormSchema.Service.Delivery
import FormSchema.Service.Settings

/-!
# The service

The answers to HTTP requests: information about the service, the catalog and its templates, and
validation, completion and insertion for documents that are sent along.
-/

namespace FormSchema.Service

/-! ## Section 1: Requests and responses -/

/-- A request. -/
structure Request where
  method : Text
  path : Text
  contentType : Octets
  body : Octets

def succeeded (body : Json) : Response := ⟨200, some body⟩

/-- A response that only says what is wrong. -/
def refused (status : Nat) (detail : Json) : Response := ⟨status, some (.obj [("detail", detail)])⟩

/-- The response to a request that some complaints are about. -/
def invalid (cs : List Complaint) : Response :=
  refused 422 (.arr (cs.map fun c => disclosed c.toJson))

/-- The response where nothing is found. -/
def notFound : Response := refused 404 (.str "Not Found")

/-- The response to a method that a route does not have. -/
def methodNotAllowed : Response := refused 405 (.str "Method Not Allowed")

/-- The response to a document that is too large. -/
def tooLarge : Response := refused 413 (.str "Document too large")

/-! ## Section 2: Routes -/

/-- The routes of the service. -/
inductive Route
  | root
  | health
  | ready
  | catalog
  | template (name : Text)
  | validate
  | complete
  | insert
  | description
  deriving DecidableEq

namespace Route

/-- The routes with a fixed path. -/
def fixed : List (Text × Route) := [
  ("/", root), ("/health", health), ("/ready", ready), ("/catalog", catalog),
  ("/validate", validate), ("/complete", complete), ("/insert", insert),
  ("/openapi.json", description)]

/-- What the paths of templates begin with. -/
def templateStart : Text := "/templates/"

def template? (path : Text) : Option Route :=
  match Text.afterStart? templateStart path with
  | none => none
  | some name =>
    if name.isEmpty || name.contains (.scalar '/') then none else some (template name)

/-- The route of a path; one line feed may follow a fixed path. -/
def ofPath? (path : Text) : Option Route :=
  match fixed.find? fun r => r.1 = path.dropFinalLineFeed with
  | some r => some r.2
  | none => template? path

/-- A path with a slash at its end taken away, or put there if it has none. -/
def otherSlash (path : Text) : Text :=
  if path.getLast? = some (.scalar '/') then
    (path.reverse.dropWhile (· = .scalar '/')).reverse
  else path ++ "/"

/-- The methods of a route. -/
def methods : Route → List Text
  | validate => ["POST"]
  | complete => ["POST"]
  | insert => ["POST"]
  | description => ["GET", "HEAD"]
  | _ => ["GET"]

end Route

/-! ## Section 3: Information -/

def title : Text := "Widget Schema API"

/-- What the service says of itself. -/
def information (s : Settings) : Json :=
  .obj [("name", .str title), ("version", .str toolVersion),
    ("docs", .str (if s.debug then "/docs" else "disabled"))]

/-- The head of the description of the service for machines; its paths are not listed. -/
def descriptionHead : Json :=
  .obj [("openapi", .str "3.1.0"), ("info", .obj [("title", .str title),
    ("description", .str "Validation and authoring assistance for widget schema documents"),
    ("version", .str toolVersion)])]

/-- The text of a template by its name. -/
def templateResponse (name : Text) : Response :=
  match Catalog.template? name with
  | some t => succeeded (.obj [("name", .str name), ("text", .str t.body.pretty)])
  | none => refused 404 (.str ("Unknown template: " ++ name))

/-! ## Section 4: Documents -/

/-- The response to a body without fields. -/
def bodyFaultResponse : BodyFault → Response
  | .complaint c => invalid [c]
  | .unreadable => refused 400 (.str "There was an error parsing the body")

/-- Whether a document is larger than the settings allow. -/
def isTooLarge (s : Settings) (text : Text) : Bool := s.maxDocumentChars < text.length

/-- Validation of a document that is sent along. -/
def validateResponse (s : Settings) (body : Entries Json) : Response :=
  let text := field textOf "text" body
  let uri := fieldOr textOf "uri" Engine.untitled body
  -- the size is looked at only once both fields are sound
  match text, uri with
  | .ok text, .ok uri =>
    if isTooLarge s text then tooLarge
    else
      let found := validateText uri text
      succeeded (.obj [("uri", .str uri), ("diagnostics", .arr (found.map (·.toJson))),
        ("count", .int found.length)])
  | text, uri => invalid (complaints text ++ complaints uri)

/-- Completion behind a part of a line that is sent along. -/
def completeResponse (body : Entries Json) : Response :=
  match field textOf "line_prefix" body with
  | .ok before =>
    succeeded (.obj [("items", .arr ((Completion.provide before).map (·.toJson)))])
  | .error c => invalid [c]

/-- Insertion into a document that is sent along. -/
def insertResponse (s : Settings) (body : Entries Json) : Response :=
  let text := field textOf "text" body
  let line := field naturalOf "line" body
  let character := field naturalOf "character" body
  let kind := field kindOf "kind" body
  match text, line, character, kind with
  | .ok text, .ok line, .ok character, .ok kind =>
    if isTooLarge s text then tooLarge
    else
      match Insertion.plan text line character kind with
      | .ok insertion => succeeded insertion.toJson
      -- a fragment that cannot be made is the request's fault
      | .error e => refused 422 (.str e.message)
  | text, line, character, kind =>
    invalid (complaints text ++ complaints line ++ complaints character ++ complaints kind)

/-- A response made from the fields of the body. -/
def withFields (r : Request) (respond : Entries Json → Response) : Response :=
  match fieldsOf r.contentType r.body with
  | .ok body => respond body
  | .error f => bodyFaultResponse f

/-! ## Section 5: The application -/

def Route.respond (s : Settings) (r : Request) : Route → Response
  | .root => succeeded (information s)
  | .health => succeeded (.obj [("status", .str "ok"), ("version", .str toolVersion)])
  | .ready => succeeded (.obj [("status", .str "ready")])
  | .catalog => succeeded (.obj [("data_types", Catalog.toJson)])
  | .template name => templateResponse name
  | .validate => withFields r (validateResponse s)
  | .complete => withFields r completeResponse
  | .insert => withFields r (insertResponse s)
  | .description => succeeded descriptionHead

/-- The answer to a request.  A path that has a route but for the slash at its end is redirected
there. -/
def answer (s : Settings) (r : Request) : Response :=
  match Route.ofPath? r.path with
  | some route =>
    if route.methods.contains r.method then route.respond s r else methodNotAllowed
  | none =>
    -- the method is not asked for before a redirection
    if (Route.ofPath? (Route.otherSlash r.path)).isSome then ⟨307, none⟩ else notFound

/-- The response to a request, if it can be delivered. -/
def respond (s : Settings) (r : Request) : Except DeliveryFault Response := (answer s r).deliver

end FormSchema.Service
