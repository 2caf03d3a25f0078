import FormSchema.Catalog
import FormSchema.Json.Printer
import FormSchema.Text.Lines

/-!
# Completion

What is offered while a document is typed: the data types behind a `"data_type":`, and the templates
on a line that mentions a widget.
-/

namespace FormSchema

/-! ## Section 1: Items -/

/-- The kinds of completion items. -/
inductive CompletionKind
  | enumMember
  | snippet
  deriving DecidableEq

namespace CompletionKind

def all : List CompletionKind := [enumMember, snippet]

def word : CompletionKind → Text
  | enumMember => "enum_member"
  | snippet => "snippet"

/-- The name of a kind in capitals. -/
def name : CompletionKind → Text
  | enumMember => "ENUM_MEMBER"
  | snippet => "SNIPPET"

def ofWord? (w : Text) : Option CompletionKind := all.find? fun k => k.word = w

end CompletionKind

/-- An offered completion. -/
structure CompletionItem where
  label : Text
  kind : CompletionKind
  detail : Text
  documentation : Text
  insertText : Text
  documentationFormat : Text

def CompletionItem.toJson (i : CompletionItem) : Json :=
  .obj [("label", .str i.label), ("kind", .str i.kind.word), ("detail", .str i.detail),
    ("documentation", .str i.documentation), ("documentation_format", .str i.documentationFormat),
    ("insert_text", .str i.insertText)]

namespace Completion

/-! ## Section 2: What is offered -/

/-- The item for a data type, which inserts its quoted identifier. -/
def ofDataType (d : DataType) : CompletionItem where
  label := d.identifier
  kind := .enumMember
  detail := d.detail
  documentation := d.description
  insertText := d.identifier.inQuotes
  documentationFormat := "markdown"

/-- The item for a template, which inserts its body. -/
def ofTemplate (t : Template) : CompletionItem where
  label := t.name
  kind := .snippet
  detail := t.detail
  documentation := t.description
  insertText := t.body.pretty
  documentationFormat := "plaintext"

/-- What opens the place of a data type. -/
def opener : Text := "\"data_type\":"

def trigger : Text := "widget"

/-- The completions behind the part of a line that stands before the cursor. -/
def provide (before : Text) : List CompletionItem :=
  if before.strip.endsWith opener then Catalog.dataTypes.map ofDataType
  else if trigger.occursIn before then Catalog.templates.map ofTemplate
  else []

end Completion

end FormSchema
