import FormSchema.Catalog
import FormSchema.Json.Value

/-!
# Fields

A schema document is a tree of fields.  A container is an object whose object-valued entries are
fields; the object under the `schema` entry of a field is again a container.  The walk lists all
fields of a document: a field, then the fields under its `schema`, then its next sibling.
-/

namespace FormSchema

/-! ## Section 1: Fields and containers -/

/-- An object stored under a name. -/
structure Field where
  name : Text
  props : Entries Json

/-- The entries of a container. -/
abbrev Container := Entries Json

namespace Field

/-- What stands under a name in a field, null if nothing does. -/
def prop (f : Field) (name : Text) : Json := (f.props.get? name).getD .null

def has (f : Field) (name : Text) : Bool := f.props.has name

/-- The container under `schema`, if there is one. -/
def nested? (f : Field) : Option Container := (f.props.get? "schema").bind Json.entries?

/-- The required properties that a field lacks. -/
def missing (f : Field) : List Text :=
  Catalog.requiredProperties.filter fun name => !f.has name

end Field

namespace Container

/-- The fields of a container: its object-valued entries. -/
def fields (c : Container) : List Field :=
  c.filterMap fun e => e.2.entries?.map fun props => ⟨e.1, props⟩

/-! ## Section 2: The walk -/

/-- What is found in a container is smaller than it, so that recursion on it ends. -/
theorem sizeOf_get?_lt {c : Container} {name : Text} {v : Json} (h : Entries.get? name c = some v) :
    sizeOf v < sizeOf c := by
  -- along the entries, up to the one that has the name
  induction c with
  | nil => simp [Entries.get?] at h
  | cons e rest ih =>
    obtain ⟨k, w⟩ := e
    simp only [Entries.get?] at h
    split at h
    · cases h
      simp only [List.cons.sizeOf_spec, Prod.mk.sizeOf_spec]
      omega
    · have := ih h
      simp only [List.cons.sizeOf_spec]
      omega

/-- The fields in a field are smaller than the field. -/
theorem sizeOf_nested?_lt {f : Field} {c : Container} (h : f.nested? = some c) :
    sizeOf c < sizeOf f.props := by
  obtain ⟨v, hv, hc⟩ := Option.bind_eq_some_iff.mp h
  have := sizeOf_get?_lt hv
  cases v <;> simp only [Json.entries?, Option.some.injEq, reduceCtorEq] at hc
  subst hc
  simp only [Json.obj.sizeOf_spec] at this
  omega

/-- The walk through the containers on a stack, the innermost first; `found` holds the fields met so
far, the last first. -/
def walkStack (found : List Field) : List Container → List Field
  | [] => found.reverse
  | [] :: stack => walkStack found stack
  | ((name, value) :: rest) :: stack =>
    match value with
    | .obj props =>
      let field : Field := ⟨name, props⟩
      match _h : field.nested? with
      -- the nested fields come before the siblings
      | some inner => walkStack (field :: found) (inner :: rest :: stack)
      | none => walkStack (field :: found) (rest :: stack)
    | _ => walkStack found (rest :: stack)
termination_by stack => sizeOf stack
decreasing_by
  · simp
  · have := sizeOf_nested?_lt _h
    simp only [field] at this
    simp only [List.cons.sizeOf_spec, Prod.mk.sizeOf_spec, Json.obj.sizeOf_spec]
    omega
  · simp only [List.cons.sizeOf_spec, Prod.mk.sizeOf_spec, Json.obj.sizeOf_spec]
    omega
  · simp only [List.cons.sizeOf_spec, Prod.mk.sizeOf_spec]
    omega

/-- All fields of a container and of the containers nested in it, each before its nested ones. -/
def walk (c : Container) : List Field := walkStack [] [c]

end Container

end FormSchema
