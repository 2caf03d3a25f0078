import FormSchema.Diagnostic
import FormSchema.Text.CodePoint

/-!
# Published diagnostics

The diagnostics of every published document by its address.  Publishing again replaces the whole
list of a document; a document that was published without findings is present with an empty list.
-/

namespace FormSchema

/-- The published diagnostics: a name and the lists by address. -/
structure Collection where
  name : Text
  entries : Entries (List Diagnostic)

namespace Collection

/-- The name of a collection that is given no other. -/
def defaultName : Text := "widget-schema"

def empty (name : Text) : Collection := ⟨name, []⟩

/-- The collection with the given list as that of a document. -/
def set (c : Collection) (uri : Text) (ds : List Diagnostic) : Collection :=
  ⟨c.name, Entries.put uri ds c.entries⟩

/-- The list of a document, empty if it has none. -/
def get (c : Collection) (uri : Text) : List Diagnostic := (c.entries.get? uri).getD []

def delete (c : Collection) (uri : Text) : Collection :=
  ⟨c.name, c.entries.filter fun e => e.1 ≠ uri⟩

/-- The collection without all its documents. -/
def clear (c : Collection) : Collection := ⟨c.name, []⟩

/-- The addresses in increasing order. -/
def uris (c : Collection) : List Text := Text.sort c.entries.names

def contains (c : Collection) (uri : Text) : Bool := c.entries.has uri

def size (c : Collection) : Nat := c.entries.length

end Collection

end FormSchema
