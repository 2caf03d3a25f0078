import FormSchema.Proofs.Json.Acceptance

/-!
# What is read is derived

Whatever the strict reader takes off the front of a text is derived by the grammar, as a tree within
the limits whose value is the one that was read.  With the other direction this says exactly which
texts are parsed and as what.
-/

namespace FormSchema.Json

variable {room : Nat} {value : Reader}

/-! ## Section 1: White space -/

/-- The white space in front of a text. -/
theorem exists_blank (s : Text) : ∃ l, IsBlank l ∧ s = l ++ skipSpace s :=
  ⟨s.takeWhile isSpace, List.all_eq_true.mp List.all_takeWhile,
    List.takeWhile_append_dropWhile.symm⟩

/-! ## Section 2: Loops -/

/-- A reader of values that reads only what the grammar derives, as trees nested at most `room`
deep. -/
def Sound (room : Nat) (value : Reader) : Prop :=
  ∀ ⦃s w rest⦄, value.read s = .ok (w, rest) →
    ∃ v x, Derives (.value v) x ∧ s = x ++ rest ∧ v.Fits room ∧ w = v.merge

/-- What the rounds of a loop have read is a list of parts of `P`, if every step reads one, whatever
white space stands behind it. -/
theorem Rounds.parted {α β : Type} {step : Text → Reading α} {closing : CodePoint}
    {P : β → Text → Prop} {good : β → Prop} {meaning : β → α}
    (hstep : ∀ {s v after}, step s = .ok (v, after) →
      ∃ b x, (∀ l, IsBlank l → P b (x ++ l)) ∧ s = x ++ after ∧ good b ∧ v = meaning b)
    (hblank : ∀ {l b x}, IsBlank l → P b x → P b (l ++ x))
    {acc vs : List α} {s rest : Text} {outcome : Reading (List α)}
    (h : Rounds step closing acc s outcome) (hout : outcome = .ok (vs, rest)) :
    ∃ bs x, Parted P bs x ∧ s = x ++ closing :: rest ∧ (∀ b ∈ bs, good b) ∧
      vs = acc.reverse ++ bs.map meaning := by
  induction h with
  | fault | stop | broken => cases hout
  | @close acc s after t v hread hafter =>
    cases hout
    obtain ⟨b, x, hx, rfl, hgood, rfl⟩ := hstep hread
    obtain ⟨l, hl, hsplit⟩ := exists_blank after
    refine ⟨[b], x ++ l, .last (hx l hl), ?_, List.forall_mem_singleton.mpr hgood,
      List.reverse_cons⟩
    -- put together again: the part, the white space behind it and the bracket
    rw [List.append_assoc, ← hafter, ← hsplit]
  | @next acc s after t v outcome hread hafter hcomma h ih =>
    obtain ⟨b, x, hx, rfl, hgood, rfl⟩ := hstep hread
    obtain ⟨l, hl, hsplit⟩ := exists_blank after
    obtain ⟨m, hm, ht⟩ := exists_blank t
    obtain ⟨bs, y, hy, hskip, hbs, rfl⟩ := ih hout
    refine ⟨b :: bs, (x ++ l) ++ .scalar ',' :: (m ++ y),
      .more (hx l hl) (hy.append_left (hblank hm)), ?_, List.forall_mem_cons.mpr ⟨hgood, hbs⟩, ?_⟩
    · rw [List.append_assoc, List.append_assoc, List.cons_append, List.append_assoc, ← hskip, ← ht,
        ← hafter, ← hsplit]
    · rw [List.reverse_cons, List.append_assoc]
      rfl

private theorem readItems_sound (hvalue : Sound room value) {acc items : List Json} {s rest : Text}
    (h : readItems value acc s = .ok (items, rest)) :
    ∃ vs x, Derives (.elements vs) x ∧ s = x ++ .scalar ']' :: rest ∧ (∀ v ∈ vs, v.Fits room) ∧
      items = acc.reverse ++ vs.map merge := by
  have hrounds := (readItems_loops value).eq_iff.mp h
  simp only [derives_elements_iff]
  refine hrounds.parted (fun hread => ?_) (fun hl hv => hv.blank_element hl) rfl
  obtain ⟨v, x, hx, hs, hfits, hw⟩ := hvalue hread
  exact ⟨v, x, fun l hl => .element isBlank_nil hx hl, hs, hfits, hw⟩

private theorem readMemberValue_sound (hvalue : Sound room value) {s rest : Text} {w : Json}
    (h : readMemberValue value s = .ok (w, rest)) :
    ∃ l m v x, IsBlank l ∧ IsBlank m ∧ Derives (.value v) x ∧
      s = l ++ .scalar ':' :: (m ++ (x ++ rest)) ∧ v.Fits room ∧ w = v.merge := by
  rw [readMemberValue.eq_def] at h
  split at h
  · cases h
  · next c r hs =>
    split at h
    · next hc =>
      obtain ⟨v, x, hx, hr, hfits, hw⟩ := hvalue h
      obtain ⟨l, hl, hsl⟩ := exists_blank s
      obtain ⟨m, hm, hrm⟩ := exists_blank r
      refine ⟨l, m, v, x, hl, hm, hx, ?_, hfits, hw⟩
      rw [← hr, ← hrm, ← hc, ← hs, ← hsl]
    · cases h

/-- A member that is read is derived. -/
theorem readMember_sound (hvalue : Sound room value) {m : Text × Json} {s rest : Text}
    (h : readMember value s = .ok (m, rest)) :
    ∃ name v x, Derives (.member (name, v)) x ∧ s = x ++ rest ∧ v.Fits room ∧
      m = (name, v.merge) := by
  rw [readMember.eq_def] at h
  split at h
  · cases h
  · next c t =>
    split at h
    · next hc =>
      split at h
      · cases h
      · next name after hname =>
        split at h
        · cases h
        · next w after' hw =>
          cases h
          obtain ⟨y, u, hy, rfl, rfl⟩ := readString_ok hname
          obtain ⟨l, k, v, x, hl, hk, hx, rfl, hfits, rfl⟩ := readMemberValue_sound hvalue hw
          refine ⟨name, v, y.inQuotes ++ (l ++ .scalar ':' :: (k ++ x)), ?_, ?_, hfits, rfl⟩
          -- the member as the grammar has it, with no white space around it
          · have hmember := Derives.member isBlank_nil hy hl (.element hk hx isBlank_nil)
            rwa [List.nil_append, List.append_nil] at hmember
          · rw [hc]
            simp [Text.inQuotes]
    · cases h

private theorem readMembers_sound (hvalue : Sound room value) {acc members : List (Text × Json)}
    {s rest : Text} (h : readMembers value acc s = .ok (members, rest)) :
    ∃ ms x, Derives (.members ms) x ∧ s = x ++ .scalar '\x7d' :: rest ∧ (∀ m ∈ ms, m.2.Fits room) ∧
      members = acc.reverse ++ ms.map fun m => (m.1, m.2.merge) := by
  have hrounds := (readMembers_loops value).eq_iff.mp h
  simp only [derives_members_iff]
  refine hrounds.parted (fun hread => ?_) (fun hl hm => hm.blank_member hl) rfl
  obtain ⟨name, v, x, hx, hs, hfits, hm⟩ := readMember_sound hvalue hread
  exact ⟨(name, v), x, fun l hl => hx.member_blank hl, hs, hfits, hm⟩

/-! ## Section 3: Values -/

private theorem fits_empty_arr (room : Nat) : (arr []).Fits (room + 1) :=
  fits_arr.mpr fun _ hv => absurd hv List.not_mem_nil

/-- An empty object takes one level. -/
theorem fits_empty_obj (room : Nat) : (obj []).Fits (room + 1) :=
  fits_obj.mpr fun _ he => absurd he List.not_mem_nil

private theorem readArray_sound (hvalue : Sound room value) {s rest : Text} {w : Json}
    (h : readArray value s = .ok (w, rest)) :
    ∃ v x, Derives (.value v) x ∧ .scalar '[' :: s = x ++ rest ∧ v.Fits (room + 1) ∧
      w = v.merge := by
  obtain ⟨l, hl, hsl⟩ := exists_blank s
  rcases (readArray_encloses value).eq_ok h with ⟨hs, rfl⟩ | ⟨items, hitems, rfl⟩
  · refine ⟨.arr [], _, .emptyArray hl, ?_, fits_empty_arr room, rfl⟩
    rw [List.cons_append, List.append_assoc, List.singleton_append, ← hs, ← hsl]
  · obtain ⟨vs, x, hx, hcons, hfits, rfl⟩ := readItems_sound hvalue hitems
    refine ⟨.arr vs, _, .array (hx.blank_elements hl), ?_, fits_arr.mpr hfits, (merge_arr vs).symm⟩
    rw [List.cons_append, List.append_assoc, List.append_assoc, List.singleton_append, ← hcons,
      ← hsl]

/-- An object that is read is derived, with one level more; its members are merged. -/
private theorem readObject_sound (hvalue : Sound room value) {s rest : Text} {w : Json}
    (h : readObject value s = .ok (w, rest)) :
    ∃ v x, Derives (.value v) x ∧ .scalar '\x7b' :: s = x ++ rest ∧ v.Fits (room + 1) ∧
      w = v.merge := by
  obtain ⟨l, hl, hsl⟩ := exists_blank s
  rcases (readObject_encloses value).eq_ok h with ⟨hs, rfl⟩ | ⟨members, hmembers, rfl⟩
  · refine ⟨.obj [], _, .emptyObject hl, ?_, fits_empty_obj room, rfl⟩
    rw [List.cons_append, List.append_assoc, List.singleton_append, ← hs, ← hsl]
  · obtain ⟨ms, x, hx, hcons, hfits, rfl⟩ := readMembers_sound hvalue hmembers
    refine ⟨.obj ms, _, .object (hx.blank_members hl), ?_, fits_obj.mpr hfits, (merge_obj ms).symm⟩
    rw [List.cons_append, List.append_assoc, List.append_assoc, List.singleton_append, ← hcons,
      ← hsl]

/-- A keyword that is found stands at the front of the text. -/
theorem eq_append_of_keyword {k : Keyword} {s rest : Text} (h : keyword? s = some (k, rest)) :
    s = k.text ++ rest := by
  obtain ⟨k', _, hk⟩ := List.exists_of_findSome?_eq_some h
  obtain ⟨r, hr, heq⟩ := Option.map_eq_some_iff.mp hk
  cases heq
  exact eq_append_of_afterStart hr

/-- The keywords of the grammar write their values. -/
theorem Keyword.derives {k : Keyword} (hk : k.isStrict) : Derives (.value k.value) k.text := by
  cases k with
  | null => exact .null
  | true => exact .boolTrue
  | false => exact .boolFalse
  | nan => cases hk
  | infinity => cases hk
  | negativeInfinity => cases hk

/-- A value without parts fits wherever its digits do. -/
theorem fits_scalar {v : Json} (hdepth : v.depth = 0) (hparts : v.parts = [v]) (hv : v.FitsDigits)
    (room : Nat) : v.Fits room :=
  ⟨hdepth ▸ Nat.zero_le room, every_of_parts_eq hparts hv⟩

/-- No keyword needs room. -/
theorem Keyword.fits (k : Keyword) (room : Nat) : k.value.Fits room := by
  cases k <;> exact fits_scalar rfl rfl (by trivial) room

/-- A number of few enough digits needs no room. -/
theorem Numeral.fits {n : Numeral} (h : n.meaning.FitsDigits) (room : Nat) :
    n.meaning.Fits room := by
  obtain ⟨negative, whole, fraction, power⟩ := n
  cases fraction with
  | some ds => exact fits_scalar rfl rfl h room
  | none =>
    cases power with
    | some e => exact fits_scalar rfl rfl h room
    | none => exact fits_scalar rfl rfl h room

private theorem readScalar_sound (room : Nat) {s rest : Text} {w : Json}
    (h : readScalar .strict s = .ok (w, rest)) :
    ∃ v x, Derives (.value v) x ∧ s = x ++ rest ∧ v.Fits room ∧ w = v.merge := by
  rw [readScalar.eq_def] at h
  -- a keyword, which the strict reader takes only if it is one of JSON, or else a number
  split at h
  · next k r hk =>
    split at h
    · cases h
    · next hstrict =>
      cases h
      have hk' : k.isStrict = true := by simpa using hstrict
      refine ⟨k.value, k.text, Keyword.derives hk', eq_append_of_keyword hk, k.fits room, ?_⟩
      cases k <;> rfl
  · rw [readNumber.eq_def] at h
    split at h
    · cases h
    · next n r hn =>
      split at h
      · cases h
      · next v hv =>
        cases h
        obtain ⟨x, hx, hs⟩ := takeNumeral_eq_some hn
        obtain ⟨rfl, hfits⟩ := hx.value_eq_ok_iff.mp hv
        exact ⟨_, x, .number hx, hs, n.fits hfits room, n.merge_meaning.symm⟩

private theorem ReadsBy.sound {s rest : Text} {w : Json} {outcome : Reading Json}
    (h : ReadsBy .strict room s outcome) (hinner : ∀ n, room = n + 1 → Sound n (reader .strict n))
    (hout : outcome = .ok (w, rest)) :
    ∃ v x, Derives (.value v) x ∧ s = x ++ rest ∧ v.Fits room ∧ w = v.merge := by
  -- one case for each way in which a value can begin
  cases h with
  | nothing | tooDeep => cases hout
  | string r =>
    obtain ⟨t, ht, rfl⟩ := mapReading_eq_ok.mp hout
    obtain ⟨x, u, hx, rfl, rfl⟩ := readString_ok ht
    refine ⟨.str t, x.inQuotes, .string hx, ?_, fits_scalar rfl rfl (by trivial) room, rfl⟩
    simp [Text.inQuotes]
  | array r => exact readArray_sound (hinner _ rfl) hout
  | object r => exact readObject_sound (hinner _ rfl) hout
  | scalar => exact readScalar_sound room hout

/-- The strict reader reads only what the grammar derives. -/
theorem reader_sound (room : Nat) : Sound room (reader .strict room) := by
  induction room using roomInduction with
  | read room hinner =>
    intro s w rest h
    exact (reader_readsBy .strict room s).sound hinner h

/-! ## Section 4: Whole texts -/

/-- The texts that are parsed, and their values: what the grammar derives as a readable tree. -/
theorem parse_eq_ok_iff {s : Text} {w : Json} :
    parse s = .ok w ↔ ∃ v, Derives (.element v) s ∧ v.Readable ∧ w = v.merge := by
  constructor
  · intro h
    rw [parse, parseDialect] at h
    split at h
    · cases h
    · split at h
      · cases h
      · next v rest hv =>
        split at h
        · next hrest =>
          cases h
          obtain ⟨tree, x, hx, hs, hfits, rfl⟩ := reader_sound maxDepth hv
          -- the whole text is the value between white space
          obtain ⟨l, hl, hsl⟩ := exists_blank s
          obtain ⟨r, hr, hrr⟩ := exists_blank rest
          refine ⟨tree, ?_, hfits, rfl⟩
          rw [hsl, hs, hrr, hrest, List.append_nil]
          exact .element hl hx hr
        · cases h
  · rintro ⟨v, hv, hfits, rfl⟩
    exact parseDialect_of_derives .strict hv hfits

/-- What is parsed is within the limits of the reader. -/
theorem readable_of_parse {s : Text} {w : Json} (h : parse s = .ok w) : w.Readable := by
  obtain ⟨v, _, hfits, rfl⟩ := parse_eq_ok_iff.mp h
  exact hfits.merge

/-- What is parsed has no name twice. -/
theorem distinct_of_parse {s : Text} {w : Json} (h : parse s = .ok w) :
    w.Every HasDistinctNames := by
  obtain ⟨v, _, _, rfl⟩ := parse_eq_ok_iff.mp h
  exact distinct_merge v

/-- A text of a tree without repeated names is parsed as that tree, unless the tree is beyond the
limits of the reader. -/
theorem parse_of_derives_iff {s : Text} {v : Json} (h : Derives (.element v) s)
    (hd : v.Every HasDistinctNames) : parse s = .ok v ↔ v.Readable := by
  refine ⟨readable_of_parse, fun hv => ?_⟩
  exact parse_eq_ok_iff.mpr ⟨v, h, hv, (merge_of_distinct hd).symm⟩

end FormSchema.Json
