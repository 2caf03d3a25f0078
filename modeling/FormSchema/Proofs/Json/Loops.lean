import FormSchema.Json.Reader

/-!
# The loops of the reader

Arrays and objects are read alike: a loop reads their parts, and behind each part it meets the
bracket that closes, a comma in front of another part, or something that is wrong.  What a loop
makes of a text is given by its rounds, so what holds of both loops is proved by one induction on
the rounds.
-/

namespace FormSchema.Json

variable {α β : Type}

/-! ## Section 1: Loops over parts -/

/-- A loop over the parts of an array or object: `step` reads one part, and behind it stands a comma
or the bracket that closes. -/
structure Loops (step : Text → Reading α) (closing : CodePoint)
    (loop : List α → Text → Reading (List α)) : Prop where
  shorter : ∀ {s after v}, step s = .ok (v, after) → after.length < s.length
  fault : ∀ {acc s f}, step s = .error f → loop acc s = .error f
  stop : ∀ {acc s after v}, step s = .ok (v, after) → skipSpace after = [] →
    loop acc s = .error (.atPlace .expectingComma [])
  round : ∀ {acc s after v d t}, step s = .ok (v, after) → skipSpace after = d :: t →
    loop acc s =
      if d = closing then .ok ((v :: acc).reverse, t)
      else if d = .scalar ',' then loop (v :: acc) (skipSpace t)
      else .error (.atPlace .expectingComma (d :: t))

/-- The first round of a loop, which goes on with `loop`. -/
def firstRound (step : Text → Reading α) (closing : CodePoint)
    (loop : List α → Text → Reading (List α)) (acc : List α) (s : Text) : Reading (List α) :=
  match step s with
  | .error f => .error f
  | .ok (v, after) =>
    match skipSpace after with
    | [] => .error (.atPlace .expectingComma [])
    | d :: t =>
      if d = closing then .ok ((v :: acc).reverse, t)
      else if d = .scalar ',' then loop (v :: acc) (skipSpace t)
      else .error (.atPlace .expectingComma (d :: t))

private theorem Loops.of_firstRound {step : Text → Reading α} {closing : CodePoint}
    {loop : List α → Text → Reading (List α)}
    (hshorter : ∀ {s after v}, step s = .ok (v, after) → after.length < s.length)
    (heq : ∀ acc s, loop acc s = firstRound step closing loop acc s) : Loops step closing loop where
  shorter := hshorter
  fault hread := by rw [heq, firstRound, hread]
  stop hread hafter := by
    rw [heq, firstRound, hread]
    simp only [hafter]
  round hread hafter := by
    rw [heq, firstRound, hread]
    simp only [hafter]

/-- The items of an array are read in a loop. -/
theorem readItems_loops (value : Reader) :
    Loops value.read (.scalar ']') (readItems value) := by
  refine .of_firstRound value.shorter fun acc s => ?_
  rw [readItems, firstRound]
  split
  · next hread => rw [hread]
  · next hread =>
    rw [hread]
    split <;> simp only [*]

/-- The members of an object are read in a loop. -/
theorem readMembers_loops (value : Reader) :
    Loops (readMember value) (.scalar '\x7d') (readMembers value) := by
  refine .of_firstRound length_readMember_lt fun acc s => ?_
  rw [readMembers, firstRound]
  split
  · next hread => rw [hread]
  · next hread =>
    rw [hread]
    split <;> simp only [*]

/-! ## Section 2: Rounds -/

/-- `Rounds step closing acc s outcome`: by its rounds, a loop that has read the parts `acc`, the
last first, makes `outcome` of the text `s`. -/
inductive Rounds (step : Text → Reading α) (closing : CodePoint) :
    List α → Text → Reading (List α) → Prop
  | fault {acc : List α} {s : Text} {f : Fault} (hread : step s = .error f) :
      Rounds step closing acc s (.error f)
  | stop {acc : List α} {s after : Text} {v : α} (hread : step s = .ok (v, after))
      (hafter : skipSpace after = []) :
      Rounds step closing acc s (.error (.atPlace .expectingComma []))
  | close {acc : List α} {s after t : Text} {v : α} (hread : step s = .ok (v, after))
      (hafter : skipSpace after = closing :: t) :
      Rounds step closing acc s (.ok ((v :: acc).reverse, t))
  | next {acc : List α} {s after t : Text} {v : α} {outcome : Reading (List α)}
      (hread : step s = .ok (v, after)) (hafter : skipSpace after = .scalar ',' :: t)
      (hcomma : .scalar ',' ≠ closing) (h : Rounds step closing (v :: acc) (skipSpace t) outcome) :
      Rounds step closing acc s outcome
  | broken {acc : List α} {s after t : Text} {v : α} {d : CodePoint}
      (hread : step s = .ok (v, after)) (hafter : skipSpace after = d :: t) (hclosing : d ≠ closing)
      (hcomma : d ≠ .scalar ',') :
      Rounds step closing acc s (.error (.atPlace .expectingComma (d :: t)))

section Loops

variable {step : Text → Reading α} {closing : CodePoint} {loop : List α → Text → Reading (List α)}
  (hloop : Loops step closing loop)
include hloop

/-- Every run of a loop is a series of rounds. -/
theorem Loops.rounds (acc : List α) (s : Text) : Rounds step closing acc s (loop acc s) := by
  -- on the text that is left, which every round makes shorter
  induction hn : s.length using Nat.strongRecOn generalizing s acc with
  | ind n ih =>
    cases hread : step s with
    | error f =>
      rw [hloop.fault hread]
      exact .fault hread
    | ok reading =>
      obtain ⟨v, after⟩ := reading
      cases hafter : skipSpace after with
      | nil =>
        rw [hloop.stop hread hafter]
        exact .stop hread hafter
      | cons d t =>
        rw [hloop.round hread hafter]
        split
        · next hd =>
          subst hd
          exact .close hread hafter
        · next hd =>
          split
          · next hcomma =>
            subst hcomma
            have hlength : (skipSpace t).length < n := by
              have h₁ := hloop.shorter hread
              have h₂ := length_lt_of_skipSpace hafter
              have h₃ := length_skipSpace_le t
              omega
            exact .next hread hafter hd (ih _ hlength _ _ rfl)
          · next hcomma => exact .broken hread hafter hd hcomma

private theorem Rounds.eq {acc : List α} {s : Text} {outcome : Reading (List α)}
    (h : Rounds step closing acc s outcome) : loop acc s = outcome := by
  -- the relation has one constructor for each way on, and the loop one equation
  induction h with
  | fault hread => exact hloop.fault hread
  | stop hread hafter => exact hloop.stop hread hafter
  | close hread hafter => rw [hloop.round hread hafter, if_pos rfl]
  | next hread hafter hcomma h ih => rw [hloop.round hread hafter, if_neg hcomma, if_pos rfl, ih]
  | broken hread hafter hclosing hcomma =>
    rw [hloop.round hread hafter, if_neg hclosing, if_neg hcomma]

/-- What a loop makes of a text is what its rounds make of it. -/
theorem Loops.eq_iff {acc : List α} {s : Text} {outcome : Reading (List α)} :
    loop acc s = outcome ↔ Rounds step closing acc s outcome := by
  constructor
  · rintro rfl
    exact hloop.rounds acc s
  · exact Rounds.eq hloop

/-! The rounds in which nothing is wrong, by what they add to the parts. -/

/-- The last part is followed by the closing bracket. -/
theorem Loops.read_last {acc : List α} {s after rest : Text} {v : α}
    (hread : step s = .ok (v, after)) (hafter : skipSpace after = closing :: rest) :
    loop acc s = .ok (acc.reverse ++ [v], rest) := by
  rw [← List.reverse_cons]
  exact hloop.eq_iff.mpr (.close hread hafter)

/-- A part that is followed by a comma is not the last one. -/
theorem Loops.read_more {acc vs : List α} {s after t rest : Text} {v : α}
    (hread : step s = .ok (v, after)) (hafter : skipSpace after = .scalar ',' :: t)
    (hcomma : .scalar ',' ≠ closing)
    (hmore : loop (v :: acc) (skipSpace t) = .ok ((v :: acc).reverse ++ vs, rest)) :
    loop acc s = .ok (acc.reverse ++ v :: vs, rest) := by
  have hparts : acc.reverse ++ v :: vs = (v :: acc).reverse ++ vs := by simp
  rw [hparts]
  exact hloop.eq_iff.mpr (.next hread hafter hcomma (hloop.eq_iff.mp hmore))

end Loops

/-! ## Section 3: Brackets around parts -/

/-- A reading with something made of its value. -/
def mapReading (g : α → β) : Reading α → Reading β
  | .error f => .error f
  | .ok (v, rest) => .ok (g v, rest)

/-- What is made of a reading is made of the value that was read. -/
theorem mapReading_eq_ok {g : α → β} {reading : Reading α} {w : β} {rest : Text} :
    mapReading g reading = .ok (w, rest) ↔ ∃ v, reading = .ok (v, rest) ∧ w = g v := by
  constructor
  · intro h
    rcases reading with f | ⟨v, r⟩
    · cases h
    · cases h
      exact ⟨v, rfl, rfl⟩
  · rintro ⟨v, rfl, rfl⟩
    rfl

/-- Making something of a reading adds no fault and hides none. -/
theorem mapReading_eq_error {g : α → β} {reading : Reading α} {f : Fault} :
    mapReading g reading = .error f ↔ reading = .error f := by
  rcases reading with f | ⟨v, r⟩ <;> simp [mapReading]

/-- What is read behind an opening bracket: the bracket that closes, or else parts, which `parts`
reads.  At the end of the text something is `missing`. -/
structure Encloses (inside : Text → Reading β) (closing : CodePoint)
    (parts : Text → Reading (List α)) (make : List α → β) (missing : Cause) : Prop where
  nothing : ∀ {s}, skipSpace s = [] → inside s = .error (.atPlace missing [])
  something : ∀ {s d t}, skipSpace s = d :: t →
    inside s = if d = closing then .ok (make [], t) else mapReading make (parts (d :: t))

section Brackets

variable {value : Reader} {s t : Text} {d : CodePoint}

/-- An array is empty or has items, by the first token in it. -/
theorem readArray_of_skipSpace (h : skipSpace s = d :: t) :
    readArray value s =
      if d = .scalar ']' then .ok (.arr [], t)
      else mapReading .arr (readItems value [] (d :: t)) := by
  rw [readArray, h]
  cases hitems : readItems value [] (d :: t) <;> simp only [hitems, mapReading]

private theorem readObject_of_skipSpace (h : skipSpace s = d :: t) :
    readObject value s =
      if d = .scalar '\x7d' then .ok (.obj [], t)
      else mapReading (fun ms => .obj (Entries.ofMembers ms)) (readMembers value [] (d :: t)) := by
  rw [readObject, h]
  cases hmembers : readMembers value [] (d :: t) <;> simp only [hmembers, mapReading]

end Brackets

/-- An array encloses its items in square brackets. -/
theorem readArray_encloses (value : Reader) :
    Encloses (readArray value) (.scalar ']') (readItems value []) .arr .expectingValue where
  nothing h := by rw [readArray, h]
  something h := readArray_of_skipSpace h

/-- An object encloses its members in braces, and merges them at the end. -/
theorem readObject_encloses (value : Reader) :
    Encloses (readObject value) (.scalar '\x7d') (readMembers value [])
      (fun ms => .obj (Entries.ofMembers ms)) .expectingName where
  nothing h := by rw [readObject, h]
  something h := readObject_of_skipSpace h

section Encloses

variable {inside : Text → Reading β} {closing : CodePoint} {parts : Text → Reading (List α)}
  {make : List α → β} {missing : Cause} (hinside : Encloses inside closing parts make missing)
  {s rest : Text} {f : Fault}
include hinside

/-- With nothing between the brackets, nothing is made of nothing. -/
theorem Encloses.of_closing (hs : skipSpace s = closing :: rest) :
    inside s = .ok (make [], rest) := by
  rw [hinside.something hs, if_pos rfl]

/-- With parts between the brackets, the whole is made of them. -/
theorem Encloses.of_parts {d : CodePoint} {t : Text} {vs : List α} (hs : skipSpace s = d :: t)
    (hd : d ≠ closing) (hparts : parts (skipSpace s) = .ok (vs, rest)) :
    inside s = .ok (make vs, rest) := by
  rw [hs] at hparts
  rw [hinside.something hs, if_neg hd, hparts, mapReading]

/-- What is read has a bracket that closes it at once, or parts. -/
theorem Encloses.eq_ok {w : β} (h : inside s = .ok (w, rest)) :
    (skipSpace s = closing :: rest ∧ w = make []) ∨
      ∃ vs, parts (skipSpace s) = .ok (vs, rest) ∧ w = make vs := by
  -- a bracket that closes at once, or parts
  cases hs : skipSpace s with
  | nil =>
    rw [hinside.nothing hs] at h
    cases h
  | cons d t =>
    rw [hinside.something hs] at h
    split at h
    · next hd =>
      cases h
      exact .inl ⟨hd ▸ rfl, rfl⟩
    · exact .inr (mapReading_eq_ok.mp h)

/-- What is wrong is that the text ends, or something in the parts. -/
theorem Encloses.eq_error (h : inside s = .error f) :
    f = .atPlace missing [] ∨ parts (skipSpace s) = .error f := by
  -- nothing follows, or the fault is among the parts
  cases hs : skipSpace s with
  | nil =>
    rw [hinside.nothing hs] at h
    cases h
    exact .inl rfl
  | cons d t =>
    rw [hinside.something hs] at h
    split at h
    · cases h
    · exact .inr (mapReading_eq_error.mp h)

end Encloses

end FormSchema.Json
