import FormSchema.Proofs.Json.Blanks
import FormSchema.Proofs.Json.Printing
import Mathlib.Data.List.Chain

/-!
# Slots

The place of the value of a member in a text, with what stands in front of it and behind it.  Other
values may be put there, and more members behind them, and the text is still one of the grammar.
Every colon behind a quotation mark that closes a name opens such a place.
-/

namespace FormSchema.Json

/-! ## Section 1: Phrases with a slot -/

/-- What is put into a slot: the value of a member, and more members behind it. -/
structure Filling where
  value : Json
  more : Entries Json := []

/-- A phrase with a slot in it, as a function of the filling.  A member counts as a list of members,
since more of them may come behind it. -/
inductive Frame
  | value (f : Filling → Json)
  | element (f : Filling → Json)
  | elements (f : Filling → List Json)
  | members (f : Filling → List (Text × Json))

@[simp] def Frame.fill : Frame → Filling → Phrase
  | .value f, x => .value (f x)
  | .element f, x => .element (f x)
  | .elements f, x => .elements (f x)
  | .members f, x => .members (f x)

/-- `Slot φ n a z`: the text of the phrase `φ` has `a` in front of the slot and `z` behind it, and
`n` of its brackets are around the slot. -/
inductive Slot : Frame → Nat → Text → Text → Prop
  | hole {l s r w z name : Text} (hl : IsBlank l) (hn : Spells s name) (hr : IsBlank r)
      (hw : IsBlank w) (hz : IsBlank z) :
      Slot (.members fun x => (name, x.value) :: x.more) 0
        (l ++ (s.inQuotes ++ (r ++ .scalar ':' :: w))) z
  | inMember {f : Filling → Json} {n : Nat} {l s r a z name : Text} (hl : IsBlank l)
      (hn : Spells s name) (hr : IsBlank r) (h : Slot (.element f) n a z) :
      Slot (.members fun x => [(name, f x)]) n (l ++ (s.inQuotes ++ (r ++ .scalar ':' :: a))) z
  | inFirstMembers {f : Filling → List (Text × Json)} {n : Nat} {a z t : Text}
      {ms : List (Text × Json)} (h : Slot (.members f) n a z) (hs : Derives (.members ms) t) :
      Slot (.members fun x => f x ++ ms) n a (z ++ .scalar ',' :: t)
  | inLaterMembers {f : Filling → List (Text × Json)} {n : Nat} {a z s : Text} {m : Text × Json}
      (hm : Derives (.member m) s) (h : Slot (.members f) n a z) :
      Slot (.members fun x => m :: f x) n (s ++ .scalar ',' :: a) z
  | inObject {f : Filling → List (Text × Json)} {n : Nat} {a z : Text}
      (h : Slot (.members f) n a z) :
      Slot (.value fun x => .obj (f x)) (n + 1) (.scalar '\x7b' :: a) (z ++ [.scalar '\x7d'])
  | inElement {f : Filling → Json} {n : Nat} {l a z r : Text} (hl : IsBlank l)
      (h : Slot (.value f) n a z) (hr : IsBlank r) : Slot (.element f) n (l ++ a) (z ++ r)
  | inLastElement {f : Filling → Json} {n : Nat} {a z : Text} (h : Slot (.element f) n a z) :
      Slot (.elements fun x => [f x]) n a z
  | inFirstElement {f : Filling → Json} {n : Nat} {a z t : Text} {vs : List Json}
      (h : Slot (.element f) n a z) (hs : Derives (.elements vs) t) :
      Slot (.elements fun x => f x :: vs) n a (z ++ .scalar ',' :: t)
  | inLaterElements {f : Filling → List Json} {n : Nat} {a z s : Text} {v : Json}
      (hv : Derives (.element v) s) (h : Slot (.elements f) n a z) :
      Slot (.elements fun x => v :: f x) n (s ++ .scalar ',' :: a) z
  | inArray {f : Filling → List Json} {n : Nat} {a z : Text} (h : Slot (.elements f) n a z) :
      Slot (.value fun x => .arr (f x)) (n + 1) (.scalar '[' :: a) (z ++ [.scalar ']'])

/-! ## Section 2: Filled slots -/

/-- Members behind a comma go on with the members in front of it. -/
theorem Derives.members_append {ms ns : List (Text × Json)} {s t : Text}
    (h : Derives (.members ms) s) (hs : Derives (.members ns) t) :
    Derives (.members (ms ++ ns)) (s ++ .scalar ',' :: t) := by
  induction ms generalizing s with
  | nil => cases h
  | cons m ms ih =>
    cases h with
    | lastMember h => exact .moreMembers h hs
    | moreMembers h hms =>
      rw [List.append_assoc, List.cons_append]
      exact .moreMembers h (ih hms)

/-- Whatever is put into a slot, the text around it is carried on to a text of the phrase. -/
theorem Slot.derives {φ : Frame} {n : Nat} {a z y m : Text} {v : Json} {es : Entries Json}
    {texts : List Text} (h : Slot φ n a z) (hv : Derives (.value v) y) (hm : IsBlank m)
    (htexts : List.Forall₂ (fun e t => Derives (.member e) t) es texts) :
    Derives (φ.fill ⟨v, es⟩)
      (a ++ (y ++ (texts.flatMap ((.scalar ',' :: m) ++ ·) ++ z))) := by
  -- from the hole outwards: each frame is one rule of the grammar
  induction h with
  | @hole l s r w z name hl hn hr hw hz =>
    have hmember := Derives.member hl hn hr (.element hw hv isBlank_nil)
    have hmembers := derives_members hm hz (List.cons_ne_nil _ _) (.cons hmember htexts) isBlank_nil
    rw [Text.join_cons] at hmembers
    simpa using hmembers
  | inMember hl hn hr h ih =>
    have hmember := Derives.lastMember (.member hl hn hr ih)
    simpa using hmember
  | inFirstMembers h hs ih =>
    have hmembers := Derives.members_append ih hs
    simpa using hmembers
  | inLaterMembers hm' h ih =>
    rw [List.append_assoc, List.cons_append]
    exact .moreMembers hm' ih
  | inObject h ih =>
    have hobject := Derives.object ih
    simpa using hobject
  | inElement hl h hr ih =>
    have helement := Derives.element hl ih hr
    simpa using helement
  | inLastElement h ih => exact .lastElement ih
  | inFirstElement h hs ih =>
    have helements := Derives.moreElements ih hs
    simpa using helements
  | inLaterElements hv' h ih =>
    rw [List.append_assoc, List.cons_append]
    exact .moreElements hv' ih
  | inArray h ih =>
    have harray := Derives.array ih
    simpa using harray

/-! ## Section 3: Room -/

/-- A phrase all values of which are within the limits. -/
def Phrase.Fits (room : Nat) : Phrase → Prop
  | .value v => v.Fits room
  | .element v => v.Fits room
  | .elements vs => ∀ v ∈ vs, v.Fits room
  | .member m => m.2.Fits room
  | .members ms => ∀ m ∈ ms, m.2.Fits room

/-- A filling all values of which are within the limits. -/
def Filling.Fits (room : Nat) (x : Filling) : Prop :=
  x.value.Fits room ∧ ∀ e ∈ x.more, e.2.Fits room

/-- An object needs room for one level at least. -/
theorem not_fits_zero_obj (es : Entries Json) : ¬ (obj es).Fits 0 :=
  fun h => absurd h.1 (Nat.not_succ_le_zero _)

private theorem not_fits_zero_arr (vs : List Json) : ¬ (arr vs).Fits 0 :=
  fun h => absurd h.1 (Nat.not_succ_le_zero _)

/-- A filled phrase is within the limits exactly if the phrase is so with a string in the slot, and
the filling is within what is left of them inside the brackets around the slot. -/
theorem Slot.fits {φ : Frame} {n : Nat} {a z : Text} (h : Slot φ n a z) (room : Nat) (t : Text)
    (x : Filling) :
    (φ.fill x).Fits room ↔ (φ.fill ⟨.str t, []⟩).Fits room ∧ x.Fits (room - n) := by
  -- the brackets take up the limits one by one
  induction h generalizing room with
  | @hole _ _ _ _ _ name =>
    show (∀ m ∈ (name, x.value) :: x.more, m.2.Fits room) ↔
      (∀ m ∈ [(name, str t)], m.2.Fits room) ∧ x.Fits room
    rw [List.forall_mem_cons, List.forall_mem_singleton, and_iff_right (Json.fits_str room t)]
    rfl
  | inMember hl hn hr h ih =>
    simp only [Frame.fill, Phrase.Fits, List.forall_mem_singleton] at ih ⊢
    exact ih room
  | inFirstMembers h hs ih =>
    simp only [Frame.fill, Phrase.Fits, List.forall_mem_append] at ih ⊢
    rw [ih room, and_right_comm]
  | inLaterMembers hm h ih =>
    simp only [Frame.fill, Phrase.Fits, List.forall_mem_cons] at ih ⊢
    rw [ih room, and_assoc]
  | inObject h ih =>
    cases room with
    | zero => exact iff_of_false (not_fits_zero_obj _) fun h => not_fits_zero_obj _ h.1
    | succ room =>
      simp only [Frame.fill, Phrase.Fits, fits_obj, Nat.add_sub_add_right] at ih ⊢
      exact ih room
  | inElement hl h hr ih => exact ih room
  | inLastElement h ih =>
    simp only [Frame.fill, Phrase.Fits, List.forall_mem_singleton] at ih ⊢
    exact ih room
  | inFirstElement h hs ih =>
    simp only [Frame.fill, Phrase.Fits, List.forall_mem_cons] at ih ⊢
    rw [ih room, and_right_comm]
  | inLaterElements hv h ih =>
    simp only [Frame.fill, Phrase.Fits, List.forall_mem_cons] at ih ⊢
    rw [ih room, and_assoc]
  | inArray h ih =>
    cases room with
    | zero => exact iff_of_false (not_fits_zero_arr _) fun h => not_fits_zero_arr _ h.1
    | succ room =>
      simp only [Frame.fill, Phrase.Fits, fits_arr, Nat.add_sub_add_right] at ih ⊢
      exact ih room

/-! ## Section 4: What follows a slot -/

/-- What can follow the value of a member: the end of the object, or a comma and a quoted token. -/
inductive Follows : Text → Prop
  | brace {l t : Text} (hl : IsBlank l) : Follows (l ++ .scalar '\x7d' :: t)
  | comma {l m s t : Text} (hl : IsBlank l) (hm : IsBlank m) (hs : CodePoint.lineFeed ∉ s) :
      Follows (l ++ .scalar ',' :: (m ++ (s.inQuotes ++ t)))

/-- What follows a slot may be followed by anything. -/
theorem Follows.append {t : Text} (h : Follows t) (u : Text) : Follows (t ++ u) := by
  cases h with
  | brace hl =>
    rw [List.append_assoc]
    exact .brace hl
  | comma hl hm hs =>
    rw [List.append_assoc, List.cons_append, List.append_assoc, List.append_assoc]
    exact .comma hl hm hs

/-- A string has no line feed that is not escaped. -/
theorem Spells.lineFeed_not_mem {s t : Text} (h : Spells s t) : CodePoint.lineFeed ∉ s :=
  fun hmem => h.noControls _ hmem (by decide)

private theorem Derives.follows_member {m : Text × Json} {l s : Text} (h : Derives (.member m) s)
    (hl : IsBlank l) : Follows (l ++ .scalar ',' :: s) := by
  cases h with
  | member hl' hn hr h => exact .comma hl hl' hn.lineFeed_not_mem

private theorem Derives.follows_members {ms : List (Text × Json)} {l s : Text}
    (h : Derives (.members ms) s) (hl : IsBlank l) : Follows (l ++ .scalar ',' :: s) := by
  cases h with
  | lastMember h => exact h.follows_member hl
  | moreMembers h hs =>
    have hfirst := (h.follows_member hl).append
    simpa using hfirst _

/-- What it means that a slot is followed by the end of its object or by another member.  The end of
an object is not part of the text of its members. -/
def Frame.Followed : Frame → Text → Prop
  | .members _, z => IsBlank z ∨ Follows z
  | _, z => Follows z

/-- A slot is followed by a brace, or by a comma and a quoted name. -/
theorem Slot.followed {φ : Frame} {n : Nat} {a z : Text} (h : Slot φ n a z) : φ.Followed z := by
  -- what follows the hole itself, and then whatever stands around it
  induction h with
  | hole hl hn hr hw hz => exact .inl hz
  | inMember hl hn hr h ih => exact .inr ih
  | inFirstMembers h hs ih =>
    rcases ih with hblank | hfollows
    · exact .inr (hs.follows_members hblank)
    · exact .inr (hfollows.append _)
  | inLaterMembers hm h ih => exact ih
  | inObject h ih =>
    rcases ih with hblank | hfollows
    · exact .brace hblank
    · exact hfollows.append _
  | inElement hl h hr ih => exact ih.append _
  | inLastElement h ih => exact ih
  | inFirstElement h hs ih => exact ih.append _
  | inLaterElements hv h ih => exact ih
  | inArray h ih => exact ih.append _

/-! ## Section 5: Opened slots -/

/-- A code point that can stand at the end of a name and nowhere else in front of a quotation
mark. -/
def EndsName (c : CodePoint) : Prop :=
  isSpace c = false ∧ c ∉ ([.scalar '"', .scalar '\\', .scalar ',', .scalar ':', .scalar '[',
    .scalar '\x7b'] : List CodePoint)

instance (c : CodePoint) : Decidable (EndsName c) :=
  inferInstanceAs (Decidable (isSpace c = false ∧ c ∉ _))

/-- A text that ends with a name in quotation marks and a colon. -/
def Opens (a : Text) : Prop := ∃ e, EndsName e ∧ [e, .scalar '"', .scalar ':'] <:+ a

private theorem Opens.colon_mem {a : Text} (h : Opens a) : .scalar ':' ∈ a := by
  obtain ⟨e, -, hsuffix⟩ := h
  exact hsuffix.subset (by simp)

private theorem Opens.colon_mem_of_eq {s a z : Text} (h : Opens a) (hs : s = a ++ z) :
    .scalar ':' ∈ s := by
  rw [hs]
  exact List.mem_append_left z h.colon_mem

/-- Behind a code point that can stand in front of the name, the name is still there. -/
theorem Opens.of_append_cons {x a : Text} {c : CodePoint} (h : Opens (x ++ c :: a))
    (hc : ¬ EndsName c ∧ c ≠ .scalar '"') : Opens a ∨ c = .scalar ':' ∧ a = [] := by
  obtain ⟨e, he, hsuffix⟩ := h
  -- the end of the name is in the text behind, or it reaches back to the code point
  rcases List.suffix_or_suffix_of_suffix hsuffix (List.suffix_append x (c :: a)) with hlong | hshort
  · rcases List.suffix_cons_iff.mp hlong with heq | ha
    · cases heq
      exact absurd he hc.1
    · exact .inl ⟨e, he, ha⟩
  · simp only [List.suffix_cons_iff, List.cons.injEq] at hshort
    rcases hshort with ⟨rfl, -⟩ | ⟨rfl, -⟩ | ⟨rfl, rfl⟩ | hnil
    · exact absurd he hc.1
    · exact absurd rfl hc.2
    · exact .inr ⟨rfl, rfl⟩
    · simp at hnil

private theorem Opens.of_blank_append {l a : Text} (hl : IsBlank l) (h : Opens (l ++ a)) :
    Opens a := by
  -- a blank is neither in a name nor the mark at its end
  induction l with
  | nil => exact h
  | cons c l ih =>
    have hc := hl c List.mem_cons_self
    have hspace : ¬ EndsName c ∧ c ≠ .scalar '"' := by
      refine ⟨fun hname => ?_, ?_⟩
      · rw [hname.1] at hc
        cases hc
      · rintro rfl
        cases hc
    rcases Opens.of_append_cons (x := []) h hspace with hopens | ⟨rfl, -⟩
    · exact ih (fun d hd => hl d (List.mem_cons_of_mem c hd)) hopens
    · cases hc

/-- The colon is the last code point. -/
theorem Opens.getLast? {a : Text} (h : Opens a) : a.getLast? = some (.scalar ':') := by
  obtain ⟨e, -, front, rfl⟩ := h
  exact List.getLast?_append_of_ne_nil _ (List.cons_ne_nil _ _)

/-- A text without a colon does not end a text that opens a slot. -/
theorem Opens.cut {s r a z : Text} (ha : Opens a) (hr : CodePoint.scalar ':' ∉ r)
    (h : s ++ r = a ++ z) : ∃ c, s = a ++ c ∧ z = c ++ r := by
  rcases List.append_eq_append_iff.mp h with ⟨b, rfl, rfl⟩ | hcut
  · cases b with
    | nil => exact ⟨[], by simp, rfl⟩
    | cons d b =>
      have hlast := ha.getLast?
      rw [List.getLast?_append_of_ne_nil _ (List.cons_ne_nil _ _)] at hlast
      exact absurd (List.mem_append_left z (List.mem_of_getLast? hlast)) hr
  · exact hcut

/-- A text without a colon is not all of a text that opens a slot. -/
theorem Opens.exists_behind {l s a z : Text} (ha : Opens a) (hl : CodePoint.scalar ':' ∉ l)
    (h : l ++ s = a ++ z) : ∃ b, a = l ++ b ∧ s = b ++ z := by
  rcases List.append_eq_append_iff.mp h with hbehind | ⟨b, rfl, -⟩
  · exact hbehind
  · exact absurd (List.mem_append_left b ha.colon_mem) hl

/-- A text that opens a slot ends in front of a code point, or the slot is opened behind it. -/
theorem Opens.cut_cons {s t a z : Text} {c : CodePoint} (ha : Opens a)
    (hc : ¬ EndsName c ∧ c ≠ .scalar '"') (h : s ++ c :: t = a ++ z) :
    (∃ b, s = a ++ b ∧ z = b ++ c :: t) ∨
      ∃ b, a = s ++ c :: b ∧ t = b ++ z ∧ (Opens b ∨ c = .scalar ':' ∧ b = []) := by
  rcases List.append_eq_append_iff.mp h with ⟨b, rfl, hb⟩ | hcut
  · rcases List.cons_eq_append_iff.mp hb with ⟨rfl, rfl⟩ | ⟨b, rfl, rfl⟩
    · exact .inl ⟨[], by simp, rfl⟩
    · exact .inr ⟨b, rfl, rfl, ha.of_append_cons hc⟩
  · exact .inl hcut

/-! A slot is not opened inside a token. -/

private theorem IsDigits.not_mem {ds : Text} (h : IsDigits ds) {c : CodePoint}
    (hc : c.isDigit = false) :
    c ∉ ds := by
  intro hmem
  rw [h.2 c hmem] at hc
  cases hc

private theorem WritesNumeral.colon_not_mem {n : Numeral} {s : Text} (h : WritesNumeral n s) :
    CodePoint.scalar ':' ∉ s := by
  cases h with
  | mk negative hw hf hp =>
    simp only [List.mem_append, not_or]
    refine ⟨by cases negative <;> decide, hw.isDigits.not_mem rfl, ?_, ?_⟩
    · cases hf with
      | absent => exact List.not_mem_nil
      | present hd => exact List.not_mem_cons_of_ne_of_not_mem (by decide) (hd.not_mem rfl)
    · cases hp with
      | absent => exact List.not_mem_nil
      | present he hs hd =>
        refine List.not_mem_cons_of_ne_of_not_mem ?_ (List.not_mem_append ?_ (hd.not_mem rfl))
        · rcases he with rfl | rfl <;> decide
        · cases hs <;> decide

/-- A quotation mark is escaped by what stands in front of it. -/
def Escapes (c d : CodePoint) : Prop := d = .scalar '"' → c = .scalar '\\'

private theorem quote_not_mem_hexFour {a b c d : CodePoint} {n : Nat}
    (h : hexFour? a b c d = some n) :
    CodePoint.scalar '"' ∉ [a, b, c, d] := by
  have hnone {e : CodePoint} {m : Nat} (he : hexValue? e = some m) : .scalar '"' ≠ e := by
    rintro rfl
    cases he
  unfold hexFour? at h
  split at h
  · next ha hb hc hd => simp [hnone ha, hnone hb, hnone hc, hnone hd]
  · cases h

private theorem escapes_of_ne {c d : CodePoint} (h : d ≠ .scalar '"') : Escapes c d :=
  fun heq => absurd heq h

private theorem isChain_writtenUnit {a b c d : CodePoint} {n : Nat} {s : Text}
    (h : hexFour? a b c d = some n) (hs : ∀ e, List.IsChain Escapes (e :: s)) (e : CodePoint) :
    List.IsChain Escapes (e :: writtenUnit a b c d s) := by
  have hdigits := quote_not_mem_hexFour h
  simp only [List.mem_cons, not_or] at hdigits
  obtain ⟨ha, hb, hc, hd, -⟩ := hdigits
  exact .cons_cons (escapes_of_ne (by decide)) (.cons_cons (escapes_of_ne (by decide))
    (.cons_cons (escapes_of_ne (Ne.symm ha)) (.cons_cons (escapes_of_ne (Ne.symm hb))
      (.cons_cons (escapes_of_ne (Ne.symm hc)) (.cons_cons (escapes_of_ne (Ne.symm hd))
        (hs d))))))

/-- Inside a string every quotation mark is escaped. -/
theorem Spells.isChain_escapes {s t : Text} (h : Spells s t) (c : CodePoint) :
    List.IsChain Escapes (c :: s) := by
  induction h generalizing c with
  | nil => exact .singleton c
  | plain hq hb hc h ih => exact .cons_cons (escapes_of_ne hq) (ih _)
  | short he h ih => exact .cons_cons (escapes_of_ne (by decide)) (.cons_cons (fun _ => rfl) (ih _))
  | unit hn hs h ih => exact isChain_writtenUnit hn ih c
  | pair hn hm hhigh hlow h ih => exact isChain_writtenUnit hn (isChain_writtenUnit hm ih) c

private theorem not_opens_string {s t a z : Text} (h : Spells s t) (hs : s.inQuotes = a ++ z) :
    ¬ Opens a := by
  rintro ⟨e, he, front, rfl⟩
  -- the mark in front of the colon is not the last one, so it would have to be escaped
  have hcut : (.scalar '"' :: s) ++ [.scalar '"'] =
      (front ++ [e, .scalar '"']) ++ .scalar ':' :: z := by
    simpa [Text.inQuotes] using hs
  obtain ⟨b, hb, hrest⟩ : ∃ b, (.scalar '"' :: s : Text) = (front ++ [e, .scalar '"']) ++ b ∧
      .scalar ':' :: z = b ++ [.scalar '"'] := by
    rcases List.append_eq_append_iff.mp hcut with ⟨b, -, hb⟩ | hcut
    · exfalso
      rcases List.cons_eq_append_iff.mp hb with ⟨-, hb⟩ | ⟨b', -, hb⟩
      · cases hb
      · simp at hb
    · exact hcut
  have hchain := h.isChain_escapes (.scalar '"')
  rw [hb, List.append_assoc] at hchain
  obtain ⟨-, hescapes, -⟩ := List.isChain_append_cons_cons.mp hchain
  rw [hescapes rfl] at he
  exact absurd he (by decide)

/-- Between the texts `a` and `z` of a phrase a value begins, perhaps behind more white space, and
it is in a slot: with that value in it the frame gives `v`. -/
def SlotAt {α : Type} (frame : (Filling → α) → Frame) (v : α) (a z : Text) : Prop :=
  ∃ w x z' u f n, IsBlank w ∧ z = w ++ (x ++ z') ∧ Derives (.value u) x ∧ f ⟨u, []⟩ = v ∧
    Slot (frame f) n (a ++ w) z'

/-- What it means that a slot of a phrase is between two parts of its text. -/
def Phrase.HasSlotAt : Phrase → Text → Text → Prop
  | .value v => SlotAt .value v
  | .element v => SlotAt .element v
  | .elements vs => SlotAt .elements vs
  | .member m => SlotAt .members [m]
  | .members ms => SlotAt .members ms

/-- A slot in a part of a phrase is a slot in the phrase. -/
theorem SlotAt.map {α β : Type} {frame : (Filling → α) → Frame} {frame' : (Filling → β) → Frame}
    {v : α} {a z : Text} (h : SlotAt frame v a z) (g : α → β) (k : Nat) (left right : Text → Text)
    (step : ∀ {f n a z}, Slot (frame f) n a z →
      Slot (frame' fun x => g (f x)) (n + k) (left a) (right z))
    (hleft : ∀ a w, left (a ++ w) = left a ++ w)
    (hright : ∀ w z, right (w ++ z) = w ++ right z) :
    SlotAt frame' (g v) (left a) (right z) := by
  obtain ⟨w, x, z', u, f, n, hw, rfl, hx, rfl, hslot⟩ := h
  refine ⟨w, x, right z', u, fun x => g (f x), n + k, hw, ?_, hx, rfl, ?_⟩
  · rw [hright, hright]
  · rw [← hleft]
    exact step hslot

private theorem IsBlank.colon_not_mem {w : Text} (hw : IsBlank w) : CodePoint.scalar ':' ∉ w :=
  fun hmem => absurd (hw _ hmem) (by decide)

/-- Behind an opening bracket a slot is opened in what is inside of the brackets. -/
theorem Opens.cut_brackets {s a z : Text} {opening closing : CodePoint} (ha : Opens a)
    (hopening : (¬ EndsName opening ∧ opening ≠ .scalar '"') ∧ opening ≠ .scalar ':')
    (hclosing : closing ≠ .scalar ':') (h : opening :: (s ++ [closing]) = a ++ z) :
    ∃ b c, a = opening :: b ∧ s = b ++ c ∧ z = c ++ [closing] ∧ Opens b := by
  rcases ha.cut_cons (s := []) hopening.1 h with ⟨b, hb, -⟩ | ⟨b, rfl, hb, hopens⟩
  · have hnil := (List.append_eq_nil_iff.mp hb.symm).1
    exact absurd (hnil ▸ ha.colon_mem) List.not_mem_nil
  · have hopens := hopens.resolve_right fun hcolon => hopening.2 hcolon.1
    obtain ⟨c, hs, hz⟩ := hopens.cut (by simpa using hclosing.symm) hb
    exact ⟨b, c, rfl, hs, hz, hopens⟩

/-- In a phrase, every text that opens a slot is in front of one. -/
theorem Derives.hasSlotAt {p : Phrase} {s a z : Text} (h : Derives p s) (hs : s = a ++ z)
    (ha : Opens a) : p.HasSlotAt a z := by
  -- on the derivation, for every cut: a phrase without a colon cannot be cut behind one, and any
  -- other phrase passes the cut on to the part that it falls in
  induction h generalizing a z with
  | null | boolTrue | boolFalse => exact absurd (ha.colon_mem_of_eq hs) (by decide)
  | number hn => exact absurd (ha.colon_mem_of_eq hs) hn.colon_not_mem
  | string h => exact absurd ha (not_opens_string h hs)
  | emptyArray hw => exact absurd (ha.colon_mem_of_eq hs) (by simp [hw.colon_not_mem])
  | emptyObject hw => exact absurd (ha.colon_mem_of_eq hs) (by simp [hw.colon_not_mem])
  | array h ih =>
    obtain ⟨b, c, rfl, rfl, rfl, hb⟩ := ha.cut_brackets (by decide) (by decide) hs
    exact (ih rfl hb).map Json.arr 1 (.scalar '[' :: ·) (· ++ [.scalar ']']) .inArray
      (by simp) (by simp)
  | object h ih =>
    obtain ⟨b, c, rfl, rfl, rfl, hb⟩ := ha.cut_brackets (by decide) (by decide) hs
    exact (ih rfl hb).map Json.obj 1 (.scalar '\x7b' :: ·) (· ++ [.scalar '\x7d']) .inObject
      (by simp) (by simp)
  | @element l s r v hl h hr ih =>
    obtain ⟨b, rfl, hb⟩ := ha.exists_behind hl.colon_not_mem hs
    have hopens := ha.of_blank_append hl
    obtain ⟨c, hcut, rfl⟩ := hopens.cut hr.colon_not_mem hb
    exact (ih hcut hopens).map id 0 (l ++ ·) (· ++ r) (.inElement hl · hr)
      (by simp) (by simp)
  | lastElement h ih => exact (ih hs ha).map ([·]) 0 id id .inLastElement (by simp) (by simp)
  | @moreElements v vs s t h hs' ih ihs =>
    rcases ha.cut_cons (by decide) hs with ⟨b, rfl, rfl⟩ | ⟨b, rfl, rfl, hb⟩
    · exact (ih rfl ha).map (· :: vs) 0 id (· ++ .scalar ',' :: t) (.inFirstElement · hs')
        (by simp) (by simp)
    · have hopens := hb.resolve_right fun hcolon => absurd hcolon.1 (by decide)
      exact (ihs rfl hopens).map (v :: ·) 0 (s ++ .scalar ',' :: ·) id (.inLaterElements h)
        (by simp) (by simp)
  | @member l s r t name v hl hn hr h ih =>
    obtain ⟨b, rfl, hb⟩ := ha.exists_behind hl.colon_not_mem hs
    have hopens := ha.of_blank_append hl
    rw [← List.append_assoc] at hb
    rcases hopens.cut_cons (by decide) hb with ⟨c, hc, -⟩ | ⟨c, rfl, rfl, hc⟩
    · -- the name itself opens no slot
      obtain ⟨d, hd, -⟩ := hopens.cut hr.colon_not_mem hc
      exact absurd hopens (not_opens_string hn hd)
    · rw [List.append_assoc]
      rcases hc with hc | ⟨-, rfl⟩
      · exact (ih rfl hc).map (fun v => [(name, v)]) 0
          (fun a => l ++ (s.inQuotes ++ (r ++ .scalar ':' :: a))) id (.inMember hl hn hr)
          (by simp) (by simp)
      · cases h with
        | @element w x z _ hw hx hz =>
          exact ⟨w, x, z, v, _, 0, hw, rfl, hx, rfl, by simpa using Slot.hole hl hn hr hw hz⟩
  | lastMember h ih => exact ih hs ha
  | @moreMembers m ms s t h hs' ih ihs =>
    rcases ha.cut_cons (by decide) hs with ⟨b, rfl, rfl⟩ | ⟨b, rfl, rfl, hb⟩
    · exact (ih rfl ha).map (· ++ ms) 0 id (· ++ .scalar ',' :: t) (.inFirstMembers · hs')
        (by simp) (by simp)
    · have hopens := hb.resolve_right fun hcolon => absurd hcolon.1 (by decide)
      exact (ihs rfl hopens).map (m :: ·) 0 (s ++ .scalar ',' :: ·) id (.inLaterMembers h)
        (by simp) (by simp)

end FormSchema.Json
