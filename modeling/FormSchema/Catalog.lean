import FormSchema.Json.Value
import FormSchema.Text.Lines

/-!
# The catalog

The five data types that a field can have, in the order in which messages and completions list
them, and the templates that are offered for whole fields.
-/

namespace FormSchema

/-! ## Section 1: Data types -/

/-- What the catalog says of a data type.  The sample is what a field of the type needs besides the
required properties. -/
structure DataType where
  identifier : Text
  detail : Text
  description : Text
  sample : Option Json

/-- A template for a field. -/
structure Template where
  name : Text
  detail : Text
  description : Text
  body : Json

namespace Catalog

/-- The value of `display` that asks for the HTML editor. -/
def htmlEditorMarker : Text := "html-editor"

/-- The properties that every field has, in the order in which messages list them. -/
def requiredProperties : List Text := ["data_type", "key", "label"]

/-- The choices of a new dropdown. -/
def sampleChoices : Json :=
  .obj [("option1", .str "Option 1"), ("option2", .str "Option 2")]

/-- A line of text. -/
def text : DataType :=
  ⟨"text", "Text Component", "Creates standard text component", none⟩

/-- An uploaded image. -/
def image : DataType :=
  ⟨"image", "Image Upload Component", "Creates image upload component", none⟩

/-- A choice from a list. -/
def dropdown : DataType :=
  ⟨"dropdown", "Dropdown Component",
    "Creates dropdown selection box. It should be used with a choices dict.",
    some (.obj [("choices", sampleChoices)])⟩

/-- A larger text, edited as HTML. -/
def area : DataType :=
  ⟨"area", "HTML Editor Component",
    "Provides custom field view and is used to create HTML editor. " ++
      "It is mandatory to have a display field with it.",
    some (.obj [("display", .str htmlEditorMarker)])⟩

/-- A structure with fields of its own. -/
def nested : DataType :=
  ⟨"nested", "Nested Structure Component",
    "It is mandatory to use in nested structures and data_type value " ++
      "of the outermost (root) object must be nested.",
    none⟩

def dataTypes : List DataType := [text, image, dropdown, area, nested]

def dataTypeIds : List Text := dataTypes.map (·.identifier)

def dataType? (identifier : Text) : Option DataType :=
  dataTypes.find? fun d => d.identifier = identifier

/-- Whether a value is the identifier of a data type. -/
def isDataType : Json → Bool
  | .str s => dataTypeIds.contains s
  | _ => false

def toJson : Json :=
  .arr (dataTypes.map fun d =>
    .obj [("identifier", .str d.identifier), ("detail", .str d.detail),
      ("description", .str d.description), ("example", d.sample.getD .null)])

/-! ## Section 2: Templates -/

/-- A field with its required properties and some more. -/
def field (key label dataType : Text) (more : List (Text × Json)) : Json :=
  .obj (("data_type", .str dataType) :: ("key", .str key) :: ("label", .str label) :: more)

def templates : List Template := [
  ⟨"widget-template", "Widget template", "Adds standard widget template",
    .obj [("sliders", .obj [
      ("multi", .bool true),
      ("schema", .obj [
        ("name", field "name" "Name" "text" []),
        ("slug", field "slug" "Slug" "text" [])]),
      ("data_type", .str "nested"),
      ("key", .str "sliders"),
      ("label", .str "Sliders")])]⟩,
  ⟨"widget-text-field", "Text field", "Adds a single text field",
    .obj [("title", field "title" "Title" "text" [])]⟩,
  ⟨"widget-image-field", "Image field", "Adds a single image upload field",
    .obj [("image", field "image" "Image" "image" [])]⟩,
  ⟨"widget-dropdown-field", "Dropdown field", "Adds a dropdown field with a choices dict",
    .obj [("choice", field "choice" "Choice" "dropdown" [("choices", sampleChoices)])]⟩,
  ⟨"widget-html-editor-field", "HTML editor field",
    "Adds an area field rendered with the HTML editor",
    .obj [("content", field "content" "Content" "area" [("display", .str htmlEditorMarker)])]⟩]

/-- The template that is printed unless another is named. -/
def defaultTemplate : Text := "widget-template"

def template? (name : Text) : Option Template := templates.find? fun t => t.name = name

def templateNames : List Text := templates.map (·.name)

end Catalog

end FormSchema
