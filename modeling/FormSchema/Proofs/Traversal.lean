import FormSchema.Proofs.Entries
import FormSchema.Proofs.Walk
import Mathlib.Algebra.GroupWithZero.Nat

/-!
# The walk turn by turn

A walk keeps, for each container that it is in, the fields that are still to come.  Each turn meets
one field or leaves one container, so the number of turns is known before the walk begins, and what
has been met at the end is the pre-order.  The pre-order lists the fields by their places: each
place at which there is a field stands in it once, a place before all that extend it and before the
places of later siblings.
-/

namespace FormSchema

/-! ## Section 1: The turns -/

/-- A walk under way: the fields that it has met, and for each container that it is in the fields
that are still to come, the innermost container first. -/
structure Traversal where
  met : List Field
  iterators : List (List Field)

namespace Traversal

/-- A walk that is about to begin. -/
def start (c : Container) : Traversal := ⟨[], [c.fields]⟩

/-- One turn of a walk.  A container with no more fields is left; otherwise its next field is met,
and the walk goes into the container that is nested in that field, if there is one.  There is no
turn after the last container has been left. -/
def turn? : Traversal → Option Traversal
  | ⟨_, []⟩ => none
  | ⟨met, [] :: below⟩ => some ⟨met, below⟩
  | ⟨met, (f :: rest) :: below⟩ =>
    match f.nested? with
    | some inner => some ⟨met ++ [f], inner.fields :: rest :: below⟩
    | none => some ⟨met ++ [f], rest :: below⟩

/-- What a walk has become after a number of turns, if it has not ended before. -/
def turns? (t : Traversal) : Nat → Option Traversal
  | 0 => some t
  | n + 1 => t.turn?.bind (turns? · n)

/-- The fields that a walk will have met at its end. -/
def promised (t : Traversal) : List Field := t.met ++ t.iterators.flatMap (·.flatMap Field.within)

/-- Every field takes a turn, and another one if a container is nested in it. -/
def cost (fs : List Field) : Nat := fs.length + fs.countP (·.nested?.isSome)

/-- The turns that a walk will still take: one for each container that it is in, and those for the
fields to come. -/
def remaining (iterators : List (List Field)) : Nat :=
  (iterators.map fun fs => cost (fs.flatMap Field.within) + 1).sum

section

variable {fs gs : List Field} {below : List (List Field)} {f : Field} {inner : Container}

private theorem cost_append : cost (fs ++ gs) = cost fs + cost gs := by
  simp only [cost, List.length_append, List.countP_append]
  omega

private theorem cost_within_nested (h : f.nested? = some inner) :
    cost f.within = cost (inner.fields.flatMap Field.within) + 2 := by
  simp only [Field.within, h, Option.elim_some, Container.preorder_eq_fields, cost,
    List.length_cons, List.countP_cons, Option.isSome_some, if_true]
  omega

private theorem cost_within_flat (h : f.nested? = none) : cost f.within = 1 := by
  simp [Field.within, h, cost]

/-- What an iterator still holds is handed out before those below it are resumed. -/
private theorem remaining_cons :
    remaining (fs :: below) = cost (fs.flatMap Field.within) + 1 + remaining below := by
  rw [remaining, remaining, List.map_cons, List.sum_cons]

end

variable {t u : Traversal}

/-- Every turn keeps what is promised, and is one of the turns that were remaining. -/
theorem turn?_spec (h : t.turn? = some u) :
    u.promised = t.promised ∧ remaining t.iterators = remaining u.iterators + 1 := by
  obtain ⟨met, iterators⟩ := t
  match iterators with
  | [] => cases h
  | [] :: below =>
    -- a container is left: it counted for one turn, and nothing in it was still promised
    cases h
    refine ⟨rfl, ?_⟩
    show remaining ([] :: below) = remaining below + 1
    rw [remaining_cons, List.flatMap_nil, cost, List.length_nil, List.countP_nil]
    omega
  | (f :: rest) :: below =>
    rw [turn?] at h
    cases hnested : f.nested? with
    | some inner =>
      -- what was promised below `f` is now promised by the container that the walk has entered
      rw [hnested] at h
      cases h
      constructor
      · simp [promised, Field.within, hnested, Container.preorder_eq_fields]
      · rw [remaining_cons, remaining_cons, remaining_cons, List.flatMap_cons, cost_append,
          cost_within_nested hnested]
        omega
    | none =>
      rw [hnested] at h
      cases h
      constructor
      · simp [promised, Field.within, hnested]
      · rw [remaining_cons, remaining_cons, List.flatMap_cons, cost_append,
          cost_within_flat hnested]
        omega

private theorem exists_turn? (h : t.iterators ≠ []) : ∃ u, t.turn? = some u := by
  obtain ⟨met, iterators⟩ := t
  -- the innermost iterator is exhausted, or it yields a field
  match iterators with
  | [] => exact absurd rfl h
  | [] :: below => exact ⟨_, rfl⟩
  | (f :: rest) :: below =>
    rw [turn?]
    cases f.nested? with
    | some inner => exact ⟨_, rfl⟩
    | none => exact ⟨_, rfl⟩

/-- After the turns that were remaining a walk has ended, and has met what was promised. -/
theorem turns?_remaining (t : Traversal) :
    t.turns? (remaining t.iterators) = some ⟨t.promised, []⟩ := by
  -- the turns remaining are the measure, and what is promised is the invariant
  induction hn : remaining t.iterators generalizing t with
  | zero =>
    obtain ⟨met, _ | ⟨fs, below⟩⟩ := t
    · simp [turns?, promised]
    · simp [remaining] at hn
  | succ n ih =>
    have hne : t.iterators ≠ [] := by
      intro h
      simp [remaining, h] at hn
    obtain ⟨u, hu⟩ := exists_turn? hne
    obtain ⟨hpromised, hremaining⟩ := turn?_spec hu
    rw [turns?, hu, ← hpromised]
    exact ih u (by omega)

private theorem promised_start (c : Container) : (start c).promised = c.preorder := by
  simp [start, promised, Container.preorder_eq_fields]

private theorem remaining_start (c : Container) :
    remaining (start c).iterators = cost c.preorder + 1 := by
  simp [start, remaining, Container.preorder_eq_fields]

end Traversal

/-! ## Section 2: Places -/

/-- The fields of the container that is nested in a field, if there is one. -/
def Field.nestedFields (f : Field) : List Field := f.nested?.elim [] Container.fields

private theorem Field.within_eq (f : Field) :
    f.within = f :: f.nestedFields.flatMap Field.within := by
  rw [within, nestedFields]
  cases f.nested? with
  | none => rfl
  | some inner => exact congrArg (f :: ·) inner.preorder_eq_fields

/-- The field at a place below a field: the index of one of the fields nested in it, the index of
one of those nested in that one, and so on. -/
def Field.at? (f : Field) : List Nat → Option Field
  | [] => some f
  | i :: place => f.nestedFields[i]?.bind (at? · place)

/-- The field at a place in a list of fields. -/
def fieldAt? (fs : List Field) : List Nat → Option Field
  | [] => none
  | i :: place => fs[i]?.bind (·.at? place)

/-- The field at a place in a container. -/
def Container.at? (c : Container) : List Nat → Option Field := fieldAt? c.fields

/-- Fields listed by their places: each place at which there is a field stands in the list once, and
places are in order like words in a dictionary. -/
structure Enumerates (field? : List Nat → Option Field) (places : List (List Nat))
    (fields : List Field) : Prop where
  increasing : places.Pairwise (· < ·)
  complete : ∀ place, place ∈ places ↔ (field? place).isSome
  fields_eq : places.map field? = fields.map some

section

variable {f : Field} {fs gs : List Field} {ps qs : List (List Nat)}

private theorem Enumerates.nil_not_mem (h : Enumerates (fieldAt? fs) ps gs) : [] ∉ ps :=
  fun hnil => nomatch (h.complete []).mp hnil

private theorem enumerates_nil : Enumerates (fieldAt? []) [] [] := by
  refine ⟨.nil, fun place => ?_, rfl⟩
  cases place with
  | nil => simp [fieldAt?]
  | cons i place => simp [fieldAt?]

/-- A field stands in front of the fields below it. -/
theorem Enumerates.within (h : Enumerates (fieldAt? f.nestedFields) ps gs) :
    Enumerates f.at? ([] :: ps) (f :: gs) := by
  -- a place below the field begins with an index, which the field drops
  have hbelow : ps.map f.at? = ps.map (fieldAt? f.nestedFields) := by
    refine List.map_congr_left fun place hp => ?_
    cases place with
    | nil => exact absurd hp h.nil_not_mem
    | cons i place => rfl
  refine ⟨List.pairwise_cons.mpr ⟨fun place hp => ?_, h.increasing⟩, fun place => ?_, ?_⟩
  · cases place with
    | nil => exact absurd hp h.nil_not_mem
    | cons i place => exact List.nil_lt_cons i place
  · cases place with
    | nil => simp [Field.at?]
    | cons i place =>
      rw [List.mem_cons, or_iff_right (List.cons_ne_nil i place)]
      exact h.complete (i :: place)
  · rw [List.map_cons, hbelow, h.fields_eq]
    rfl

/-- The places of fields with one more field in front of them. -/
def behind (places : List (List Nat)) : List (List Nat) := places.map (List.modifyHead (· + 1))

private theorem mem_behind (h : Enumerates (fieldAt? fs) qs gs) {place : List Nat} :
    place ∈ behind qs ↔ ∃ i rest, place = (i + 1) :: rest ∧ i :: rest ∈ qs := by
  rw [behind, List.mem_map]
  constructor
  · rintro ⟨place, hp, rfl⟩
    cases place with
    | nil => exact absurd hp h.nil_not_mem
    | cons i rest => exact ⟨i, rest, rfl, hp⟩
  · rintro ⟨i, rest, rfl, hp⟩
    exact ⟨i :: rest, hp, rfl⟩

private theorem behind_increasing (h : Enumerates (fieldAt? fs) qs gs) :
    (behind qs).Pairwise (· < ·) := by
  refine List.pairwise_map.mpr (h.increasing.imp_of_mem fun {p q} hp hq hlt => ?_)
  match p, q with
  | [], _ => exact absurd hp h.nil_not_mem
  | _, [] => exact absurd hq h.nil_not_mem
  | i :: p, j :: q =>
    rw [List.cons_lt_cons_iff] at hlt
    simpa [List.cons_lt_cons_iff] using hlt

private theorem map_behind (h : Enumerates (fieldAt? fs) qs gs) :
    (behind qs).map (fieldAt? (f :: fs)) = gs.map some := by
  rw [behind, List.map_map, ← h.fields_eq]
  refine List.map_congr_left fun place hp => ?_
  cases place with
  | nil => rfl
  | cons i place => rfl

/-- The places of a field and of those below it come before the places of the fields behind it. -/
theorem Enumerates.cons {hs : List Field} (hf : Enumerates f.at? ps hs)
    (hfs : Enumerates (fieldAt? fs) qs gs) :
    Enumerates (fieldAt? (f :: fs)) (ps.map (0 :: ·) ++ behind qs) (hs ++ gs) := by
  -- the places at the front begin with zero, those behind it with a successor
  refine ⟨List.pairwise_append.mpr ⟨?_, behind_increasing hfs, ?_⟩, fun place => ?_, ?_⟩
  · exact List.pairwise_map.mpr (hf.increasing.imp List.cons_lt_cons_self.mpr)
  · intro p hp q hq
    obtain ⟨p, -, rfl⟩ := List.mem_map.mp hp
    obtain ⟨i, q, rfl, -⟩ := (mem_behind hfs).mp hq
    exact List.cons_lt_cons_iff.mpr (.inl i.succ_pos)
  · -- the first index says whether a place is at the front or behind it
    rw [List.mem_append, List.mem_map, mem_behind hfs]
    match place with
    | [] => simp [fieldAt?]
    | 0 :: place => simpa [fieldAt?] using hf.complete place
    | (i + 1) :: place => simpa [fieldAt?] using hfs.complete (i :: place)
  · rw [List.map_append, List.map_append, map_behind hfs, List.map_map, ← hf.fields_eq]
    rfl

private theorem exists_enumeration_of_forall (h : ∀ f ∈ fs, ∃ ps, Enumerates f.at? ps f.within) :
    ∃ qs, Enumerates (fieldAt? fs) qs (fs.flatMap Field.within) := by
  induction fs with
  | nil => exact ⟨[], enumerates_nil⟩
  | cons f fs ih =>
    obtain ⟨hf, hfs⟩ := List.forall_mem_cons.mp h
    obtain ⟨ps, hps⟩ := hf
    obtain ⟨qs, hqs⟩ := ih hfs
    exact ⟨_, hps.cons hqs⟩

end

namespace Container

/-- A field is smaller than the container that holds it, so that the recursion ends. -/
private theorem sizeOf_props_lt {c : Container} {f : Field} (h : f ∈ c.fields) :
    sizeOf f.props < sizeOf c := by
  obtain ⟨⟨name, value⟩, he, hf⟩ := List.mem_filterMap.mp h
  obtain ⟨props, hprops, rfl⟩ := Option.map_eq_some_iff.mp hf
  have hlt := List.sizeOf_lt_of_mem he
  -- only an object is a field, and its properties are a part of it
  cases value with
  | obj entries =>
    cases hprops
    simp only [Prod.mk.sizeOf_spec, Json.obj.sizeOf_spec] at hlt
    show sizeOf props < sizeOf c
    omega
  | _ => cases hprops

/-- The pre-order lists the fields of a container by their places. -/
theorem exists_enumeration (c : Container) : ∃ places, Enumerates c.at? places c.preorder := by
  rw [at?, preorder_eq_fields]
  refine exists_enumeration_of_forall fun f hf => ?_
  have hnested : ∃ ps, Enumerates (fieldAt? f.nestedFields) ps
      (f.nestedFields.flatMap Field.within) := by
    rw [Field.nestedFields]
    cases h : f.nested? with
    | none => exact ⟨[], enumerates_nil⟩
    | some inner =>
      -- the nested container is smaller
      have hsize := Nat.lt_trans (sizeOf_nested?_lt h) (sizeOf_props_lt hf)
      obtain ⟨ps, hps⟩ := exists_enumeration inner
      rw [at?, preorder_eq_fields] at hps
      exact ⟨ps, hps⟩
  obtain ⟨ps, hps⟩ := hnested
  exact ⟨_, f.within_eq ▸ hps.within⟩
termination_by sizeOf c

/-! ## Section 3: The walk -/

/-- A walk ends after one turn for the container, one for each field and one for each container that
is nested in a field.  It has then met the fields in pre-order, which are the fields at all places,
each of them once.  A field around a container comes in front of the walk of that container, and the
walk of a container is that of its entries, one after the other. -/
theorem walk_traverses_preorder (c : Container) :
    (Traversal.start c).turns? (Traversal.cost c.walk + 1) = some ⟨c.walk, []⟩ ∧
      c.walk = c.preorder ∧ (∃ places, Enumerates c.at? places c.walk) ∧
      (∀ name (props : Entries Json),
        let f : Field := ⟨name, props.put "schema" (.obj c)⟩
        walk [(f.name, .obj f.props)] = f :: c.walk) ∧
      c.walk = c.flatMap fun e => walk [e] := by
  have hturns := Traversal.turns?_remaining (Traversal.start c)
  rw [Traversal.remaining_start, Traversal.promised_start] at hturns
  -- a field around the container comes first, and then what is inside
  have hwrapped (name : Text) (props : Entries Json) :
      walk [(name, .obj (props.put "schema" (.obj c)))] =
        ⟨name, props.put "schema" (.obj c)⟩ :: c.preorder := by
    have hnested : Field.nested? ⟨name, props.put "schema" (.obj c)⟩ = some c := by
      rw [Field.nested?, Entries.get?_put]
      rfl
    rw [walk_eq_preorder, preorder_cons_nested hnested, preorder, List.append_nil]
  rw [walk_eq_preorder c]
  refine ⟨hturns, rfl, c.exists_enumeration, hwrapped, ?_⟩
  simp only [walk_eq_preorder]
  exact c.preorder_eq_flatMap

end Container

end FormSchema
