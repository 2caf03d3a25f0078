import FormSchema.Proofs.Json.Soundness

/-!
# Where reading fails

Whatever the strict reader finds wrong with a text it finds in the text: at a place where some rest
of the text begins, or at a constant that is one of its own words.  So the message of a fault is
made of the words of the reader and of numbers, and it is a single line.
-/

namespace FormSchema.Json

/-! ## Section 1: Faults in a text -/

/-- Whether a fault can be one of a text: the place where it stands is the beginning of a rest of
the text, and the constant that it names is a word of the reader. -/
def Fault.IsIn (s : Text) : Fault → Prop
  | .atPlace _ rest => rest <:+ s
  | .constant name => ∃ k : Keyword, name = k.text
  | _ => True

private theorem Fault.IsIn.of_suffix {f : Fault} {s t : Text} (h : f.IsIn s) (hst : s <:+ t) :
    f.IsIn t := by
  cases f with
  | atPlace cause rest => exact h.trans hst
  | constant name => exact h
  | tooManyDigits count => trivial
  | tooDeep => trivial

/-- Whether a fault can be met inside a value: it is one of the text, and the value has not come to
its end, so that nothing can be left over behind it. -/
structure Fault.IsInside (s : Text) (f : Fault) : Prop where
  isIn : f.IsIn s
  not_extra : ∀ rest, f ≠ .atPlace .extraData rest

/-- Only the extra data behind a value is a fault that is not inside the value. -/
private theorem Fault.isInside_atPlace {cause : Cause} {rest s : Text} (hrest : rest <:+ s)
    (hcause : cause ≠ .extraData) : (Fault.atPlace cause rest).IsInside s where
  isIn := hrest
  not_extra _ h := hcause (Fault.atPlace.inj h).1

private theorem Fault.IsInside.of_suffix {f : Fault} {s t : Text} (h : f.IsInside s)
    (hst : s <:+ t) :
    f.IsInside t :=
  ⟨h.isIn.of_suffix hst, h.not_extra⟩

private theorem skipSpace_suffix (s : Text) : skipSpace s <:+ s := List.dropWhile_suffix isSpace

private theorem suffix_of_skipSpace {c : CodePoint} {s r : Text} (h : skipSpace s = c :: r) :
    r <:+ s :=
  (List.suffix_cons c r).trans (h ▸ skipSpace_suffix s)

/-! ## Section 2: Strings and scalars -/

private theorem readSecondHalf_fault {high : CodePoint} {s : Text} {f : Fault}
    (h : readSecondHalf high s = .error f) : f.IsInside s := by
  rw [readSecondHalf.eq_def] at h
  split at h
  · split at h
    · cases h
      exact Fault.isInside_atPlace (List.suffix_cons _ _) (by simp)
    · split at h <;> cases h
  · cases h

private theorem readCodeUnit_fault {s : Text} {f : Fault} (h : readCodeUnit s = .error f) :
    f.IsInside s := by
  rw [readCodeUnit.eq_def] at h
  split at h
  · next u a b c d next r =>
    split at h
    · cases h
      exact Fault.isInside_atPlace (List.suffix_refl _) (by simp)
    · split at h
      · exact (readSecondHalf_fault h).of_suffix ⟨[u, a, b, c, d], rfl⟩
      · cases h
  · cases h
    exact Fault.isInside_atPlace (List.suffix_refl _) (by simp)

private theorem readEscape_fault {opening s : Text} {f : Fault}
    (h : readEscape opening s = .error f)
    (hs : .scalar '\\' :: s <:+ opening) : f.IsInside opening := by
  -- the fault is at the string as a whole, at the backslash, or within the code unit
  rw [readEscape.eq_def] at h
  split at h
  · cases h
    exact Fault.isInside_atPlace (List.suffix_refl opening) (by simp)
  · split at h
    · cases h
    · split at h
      · exact (readCodeUnit_fault h).of_suffix ((List.suffix_cons _ _).trans hs)
      · cases h
        exact Fault.isInside_atPlace hs (by simp)

private theorem readString_fault {opening acc s : Text} {f : Fault}
    (h : readString opening acc s = .error f) (hs : s <:+ opening) : f.IsInside opening := by
  -- by the steps of the reader, as for the strings that are read
  fun_induction readString opening acc s with
  | case1 =>
    cases h
    exact Fault.isInside_atPlace (List.suffix_refl opening) (by simp)
  | case2 => cases h
  | case3 acc r f' he hq =>
    cases h
    exact readEscape_fault he hs
  | case4 acc r p rest he hq ih =>
    apply ih h
    -- what an escape leaves over is a rest of what stands behind the backslash
    have hrest : rest <:+ r := by
      cases readEscape_ok he with
      | short he => exact List.suffix_cons _ _
      | unit => exact ⟨[_, _, _, _, _], rfl⟩
      | pair => exact ⟨[_, _, _, _, _, _, _, _, _, _, _], rfl⟩
    exact hrest.trans ((List.suffix_cons _ _).trans hs)
  | case5 acc c r hq hb hc =>
    cases h
    exact Fault.isInside_atPlace hs (by simp)
  | case6 acc c r hq hb hc ih => exact ih h ((List.suffix_cons _ _).trans hs)

private theorem readScalar_fault {dialect : Dialect} {s : Text} {f : Fault}
    (h : readScalar dialect s = .error f) : f.IsInside s := by
  unfold readScalar at h
  split at h
  · next k r _ =>
    split at h
    · cases h
      exact ⟨⟨k, rfl⟩, by simp⟩
    · cases h
  · unfold readNumber at h
    split at h
    · cases h
      exact Fault.isInside_atPlace (List.suffix_refl s) (by simp)
    · split at h
      · next n _ _ hn =>
        cases h
        -- a number can only have too many digits
        unfold Numeral.value at hn
        split at hn
        · split at hn
          · cases hn
            exact ⟨trivial, by simp⟩
          · cases hn
        · cases hn
      · cases h

/-! ## Section 3: Arrays and objects -/

/-- A loop over parts has the faults of its parts and of what stands between them. -/
private theorem Rounds.isInside {α : Type} {step : Text → Reading α} {closing : CodePoint}
    (hfault : ∀ {s f}, step s = .error f → f.IsInside s)
    (hrest : ∀ {s v after}, step s = .ok (v, after) → after <:+ s) {acc : List α} {s : Text}
    {outcome : Reading (List α)} (h : Rounds step closing acc s outcome) {f : Fault}
    (hout : outcome = .error f) : f.IsInside s := by
  -- round by round: each begins inside of the text in which the round before begins
  induction h with
  | fault hread =>
    cases hout
    exact hfault hread
  | stop =>
    cases hout
    exact Fault.isInside_atPlace List.nil_suffix (by simp)
  | close => cases hout
  | @next acc s after t v outcome hread hafter hcomma h ih =>
    have hmore : skipSpace t <:+ after := (skipSpace_suffix t).trans (suffix_of_skipSpace hafter)
    exact (ih hout).of_suffix (hmore.trans (hrest hread))
  | @broken acc s after t v d hread hafter hclosing hcomma =>
    cases hout
    have hcons : d :: t <:+ after := hafter ▸ skipSpace_suffix after
    exact Fault.isInside_atPlace (hcons.trans (hrest hread)) (by simp)

section Loops

variable {room : Nat} {value : Reader} (hfault : ∀ {s f}, value.read s = .error f → f.IsInside s)
include hfault

private theorem readMemberValue_fault {s : Text} {f : Fault}
    (h : readMemberValue value s = .error f) :
    f.IsInside s := by
  rw [readMemberValue.eq_def] at h
  split at h
  · cases h
    exact Fault.isInside_atPlace List.nil_suffix (by simp)
  · next c r hs =>
    split at h
    · exact (hfault h).of_suffix ((skipSpace_suffix r).trans (suffix_of_skipSpace hs))
    · cases h
      exact Fault.isInside_atPlace (hs ▸ skipSpace_suffix s) (by simp)

private theorem readMember_fault {s : Text} {f : Fault} (h : readMember value s = .error f) :
    f.IsInside s := by
  rw [readMember.eq_def] at h
  -- the fault is at the name, inside of the name, or inside of the value
  split at h
  · cases h
    exact Fault.isInside_atPlace List.nil_suffix (by simp)
  · next c r =>
    have hr : r <:+ c :: r := List.suffix_cons c r
    split at h
    · split at h
      · next hname =>
        cases h
        exact readString_fault hname hr
      · next name after hname =>
        obtain ⟨y, u, -, rfl, -⟩ := readString_ok hname
        have hafter : after <:+ y ++ .scalar '"' :: after :=
          (List.suffix_cons _ after).trans (List.suffix_append y _)
        split at h
        · next hmember =>
          cases h
          exact (readMemberValue_fault hfault hmember).of_suffix (hafter.trans hr)
        · cases h
    · cases h
      exact Fault.isInside_atPlace (List.suffix_refl _) (by simp)

variable (hvalue : Sound room value)
include hvalue

private theorem readItems_fault {acc : List Json} {s : Text} {f : Fault}
    (h : readItems value acc s = .error f) : f.IsInside s := by
  refine ((readItems_loops value).eq_iff.mp h).isInside hfault (fun hread => ?_) rfl
  obtain ⟨v, x, -, rfl, -⟩ := hvalue hread
  exact List.suffix_append x _

/-- Members that are not read have their fault in one of them or between two. -/
private theorem readMembers_fault {acc : List (Text × Json)} {s : Text} {f : Fault}
    (h : readMembers value acc s = .error f) : f.IsInside s := by
  have hmember {s f} (hread : readMember value s = .error f) : f.IsInside s :=
    readMember_fault hfault hread
  refine ((readMembers_loops value).eq_iff.mp h).isInside hmember (fun hread => ?_) rfl
  obtain ⟨name, v, x, -, rfl, -⟩ := readMember_sound hvalue hread
  exact List.suffix_append x _

private theorem readArray_fault {s : Text} {f : Fault} (h : readArray value s = .error f) :
    f.IsInside s := by
  rcases (readArray_encloses value).eq_error h with rfl | hitems
  · exact Fault.isInside_atPlace List.nil_suffix (by simp)
  · exact (readItems_fault hfault hvalue hitems).of_suffix (skipSpace_suffix s)

private theorem readObject_fault {s : Text} {f : Fault} (h : readObject value s = .error f) :
    f.IsInside s := by
  rcases (readObject_encloses value).eq_error h with rfl | hmembers
  · exact Fault.isInside_atPlace List.nil_suffix (by simp)
  · exact (readMembers_fault hfault hvalue hmembers).of_suffix (skipSpace_suffix s)

end Loops

/-! ## Section 4: Whole texts -/

private theorem ReadsBy.isInside {room : Nat} {s : Text} {f : Fault} {outcome : Reading Json}
    (h : ReadsBy .strict room s outcome)
    (hinner : ∀ n, room = n + 1 → ∀ {s f}, (reader .strict n).read s = .error f → f.IsInside s)
    (hout : outcome = .error f) : f.IsInside s := by
  -- one case for each way in which a value can begin
  cases h with
  | nothing =>
    cases hout
    exact Fault.isInside_atPlace List.nil_suffix (by simp)
  | string r => exact readString_fault (mapReading_eq_error.mp hout) (List.suffix_cons _ r)
  | tooDeep =>
    cases hout
    exact ⟨trivial, by simp⟩
  | @array n r =>
    exact (readArray_fault (hinner n rfl) (reader_sound n) hout).of_suffix (List.suffix_cons _ r)
  | @object n r =>
    exact (readObject_fault (hinner n rfl) (reader_sound n) hout).of_suffix (List.suffix_cons _ r)
  | scalar => exact readScalar_fault hout

/-- With any room a reader finds faults only inside the text that it is given. -/
theorem reader_fault (room : Nat) {s : Text} {f : Fault}
    (h : (reader .strict room).read s = .error f) : f.IsInside s := by
  induction room using roomInduction generalizing s f with
  | read room hinner => exact (reader_readsBy .strict room s).isInside hinner h

/-- The ways in which a text is not parsed: it begins with a mark, its value cannot be read, or
something stands behind its value. -/
theorem parse_eq_error {s : Text} {f : Fault} (h : parse s = .error f) :
    f = .atPlace .byteOrderMark s ∨
      s.head? ≠ some byteOrderMark ∧
        ((reader .strict maxDepth).read (skipSpace s) = .error f ∨
          ∃ w rest c r, (reader .strict maxDepth).read (skipSpace s) = .ok (w, rest) ∧
            skipSpace rest = c :: r ∧ f = .atPlace .extraData (c :: r)) := by
  unfold parse parseDialect at h
  -- a byte order mark in front, a fault of the value, or something behind the value
  split at h
  · cases h
    exact .inl rfl
  · next hmark =>
    refine .inr ⟨hmark, ?_⟩
    split at h
    · next hread =>
      cases h
      exact .inl hread
    · next w rest hread =>
      split at h
      · cases h
      · next c r hrest =>
        cases h
        exact .inr ⟨w, rest, c, r, hread, hrest, rfl⟩

/-- What is wrong with a text that is not parsed stands in the text. -/
theorem parse_fault {s : Text} {f : Fault} (h : parse s = .error f) : f.IsIn s := by
  rcases parse_eq_error h with rfl | ⟨-, hread | ⟨w, rest, c, r, hread, hrest, rfl⟩⟩
  · exact List.suffix_refl s
  · exact (reader_fault maxDepth hread).isIn.of_suffix (skipSpace_suffix s)
  · obtain ⟨v, x, -, hs, -⟩ := reader_sound maxDepth hread
    have hafter : c :: r <:+ rest := hrest ▸ skipSpace_suffix rest
    have hvalue : rest <:+ skipSpace s := hs ▸ List.suffix_append x rest
    exact hafter.trans (hvalue.trans (skipSpace_suffix s))

end FormSchema.Json
