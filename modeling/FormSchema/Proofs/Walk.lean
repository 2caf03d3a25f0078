import FormSchema.Field

/-!
# The walk is the pre-order

The walk through a document keeps the containers that it has entered on a stack.  It lists the same
fields, in the same order, as the recursive reading of a document: a field, the fields of the
container nested in it, and then what follows the field.  So the walk of a container is that of its
entries, one after the other.
-/

namespace FormSchema.Container

/-! ## Section 1: The pre-order -/

/-- The fields of a container and of the containers nested in it: each field stands before those
under its `schema`, and these before its next sibling.  Entries that are no objects contribute
nothing, and neither does a `schema` that is no object. -/
def preorder : Container → List Field
  | [] => []
  | (name, value) :: rest =>
    match value with
    | .obj props =>
      let field : Field := ⟨name, props⟩
      match _h : field.nested? with
      | some inner => field :: (preorder inner ++ preorder rest)
      | none => field :: preorder rest
    | _ => preorder rest
termination_by c => sizeOf c
decreasing_by
  -- the nested container is smaller than the entry that holds the field
  · have := sizeOf_nested?_lt _h
    simp only [field] at this
    simp only [List.cons.sizeOf_spec, Prod.mk.sizeOf_spec, Json.obj.sizeOf_spec]
    omega
  all_goals
    simp only [List.cons.sizeOf_spec, Prod.mk.sizeOf_spec]
    omega

/-- A field with fields in it is followed by these. -/
theorem preorder_cons_nested {name : Text} {props : Entries Json} {inner rest : Container}
    (h : Field.nested? ⟨name, props⟩ = some inner) :
    preorder ((name, .obj props) :: rest) = ⟨name, props⟩ :: (preorder inner ++ preorder rest) := by
  rw [preorder]
  -- the match carries an equation, so it is split before it is used
  split
  · next inner' h' =>
    obtain rfl : inner' = inner := Option.some.inj (h'.symm.trans h)
    rfl
  · next h' => exact absurd (h'.symm.trans h) (by simp)

/-- A field without fields in it is followed by what is behind it. -/
theorem preorder_cons_flat {name : Text} {props : Entries Json} {rest : Container}
    (h : Field.nested? ⟨name, props⟩ = none) :
    preorder ((name, .obj props) :: rest) = ⟨name, props⟩ :: preorder rest := by
  rw [preorder]
  split
  · next h' => exact absurd (h'.symm.trans h) (by simp)
  · rfl

/-- An entry that is no object is passed over. -/
theorem preorder_cons_other {name : Text} {value : Json} {rest : Container}
    (h : ∀ props, value ≠ .obj props) : preorder ((name, value) :: rest) = preorder rest := by
  cases value with
  | obj props => exact absurd rfl (h props)
  | _ => rw [preorder]; simp

/-! ## Section 2: The stack -/

/-- The fields that a walk will still meet are those of the containers on its stack, the innermost
first. -/
theorem walkStack_eq (found : List Field) (stack : List Container) :
    walkStack found stack = found.reverse ++ stack.flatMap preorder := by
  -- by the steps of the walk: an empty stack, an empty container on top of it, a field that opens a
  -- container, one that does not, and an entry that is no field
  fun_induction walkStack found stack with
  | case1 found => simp
  | case2 found stack ih => simpa [preorder] using ih
  | case3 found name rest stack props field inner h ih =>
    rw [ih, List.flatMap_cons, List.flatMap_cons, List.flatMap_cons, preorder_cons_nested h]
    simp [field]
  | case4 found name rest stack props field h ih =>
    rw [ih, List.flatMap_cons, List.flatMap_cons, preorder_cons_flat h]
    simp [field]
  | case5 found name value rest stack hne ih =>
    rw [ih, List.flatMap_cons, List.flatMap_cons, preorder_cons_other hne]

/-- The walk lists the fields of a document in pre-order. -/
theorem walk_eq_preorder (c : Container) : c.walk = c.preorder := by
  rw [walk, walkStack_eq]
  simp

end FormSchema.Container

/-! ## Section 3: Entry by entry -/

namespace FormSchema

/-- A field and the fields of the container nested in it. -/
def Field.within (f : Field) : List Field := f :: f.nested?.elim [] Container.preorder

namespace Container

private theorem fields_cons_obj (name : Text) (props : Entries Json) (rest : Container) :
    fields ((name, .obj props) :: rest) = ⟨name, props⟩ :: rest.fields := rfl

private theorem fields_cons_other {name : Text} {value : Json} {rest : Container}
    (h : ∀ props, value ≠ .obj props) : fields ((name, value) :: rest) = rest.fields := by
  cases value with
  | obj props => exact absurd rfl (h props)
  | _ => rfl

private theorem preorder_cons_within (name : Text) (props : Entries Json) (rest : Container) :
    preorder ((name, .obj props) :: rest) = Field.within ⟨name, props⟩ ++ preorder rest := by
  rw [Field.within]
  cases h : Field.nested? ⟨name, props⟩ with
  | some inner => exact preorder_cons_nested h
  | none => exact preorder_cons_flat h

/-- The pre-order goes through the fields of a container, each with those under it. -/
theorem preorder_eq_fields (c : Container) : c.preorder = c.fields.flatMap Field.within := by
  induction c with
  | nil => rw [preorder]; rfl
  | cons e rest ih =>
    obtain ⟨name, value⟩ := e
    cases value with
    | obj props => rw [preorder_cons_within, fields_cons_obj, List.flatMap_cons, ih]
    | _ => rw [preorder_cons_other (by simp), fields_cons_other (by simp), ih]

/-- The fields of a container are those of its entries, one entry after the other. -/
theorem preorder_eq_flatMap (c : Container) : c.preorder = c.flatMap fun e => preorder [e] := by
  induction c with
  | nil => rw [preorder]; rfl
  | cons e rest ih =>
    obtain ⟨name, value⟩ := e
    rw [List.flatMap_cons, ← ih]
    -- an entry that is no object has no fields at all
    cases value with
    | obj props =>
      rw [preorder_cons_within, preorder_cons_within, preorder, List.append_nil]
    | _ =>
      rw [preorder_cons_other (by simp), preorder_cons_other (by simp), preorder, List.nil_append]

end Container

end FormSchema
