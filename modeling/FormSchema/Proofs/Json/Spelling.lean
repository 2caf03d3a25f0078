import FormSchema.Proofs.Json.Blanks
import FormSchema.Proofs.Json.Places

/-!
# Where names are spelled

Whatever the layout of a text, the name of every entry of its value is spelled between quotation
marks somewhere in the text, and on one line, since no string is written with a line feed in it.  A
text without a backslash spells every string as it is, so there the names stand word for word.
-/

namespace FormSchema.Json

variable {s t name : Text} {u w : Json}

/-! ## Section 1: Spellings -/

/-- Without a backslash a string is spelled by itself. -/
theorem Spells.eq_of_no_backslash (h : Spells s t) (hs : .scalar '\\' ∉ s) : s = t := by
  induction h with
  | nil => rfl
  | plain hq hb hc h ih => rw [ih fun hmem => hs (List.mem_cons_of_mem _ hmem)]
  | short he h ih => exact absurd List.mem_cons_self hs
  | unit hn hlow h ih => exact absurd List.mem_cons_self hs
  | pair hn hm hhigh hlow h ih => exact absurd List.mem_cons_self hs

/-- A string that is written without escapes. -/
def Unescaped (s : Text) : Prop :=
  ∀ c ∈ s, c ≠ .scalar '"' ∧ c ≠ .scalar '\\' ∧ ¬ c.toNat < 0x20

instance (s : Text) : Decidable (Unescaped s) :=
  inferInstanceAs (Decidable (∀ c ∈ s, c ≠ .scalar '"' ∧ c ≠ .scalar '\\' ∧ ¬ c.toNat < 0x20))

/-- A text that needs no escapes is written as it is. -/
theorem escaped_of_unescaped {s : Text} (h : Unescaped s) :
    s.flatMap (escapeInString false) = s := by
  induction s with
  | nil => rfl
  | cons c s ih =>
    obtain ⟨⟨hq, hb, hc⟩, hs⟩ := List.forall_mem_cons.mp h
    -- code points with a short escape are control characters, the mark or the backslash
    have hne {d : CodePoint} (hd : d.toNat < 0x20) : c ≠ d := by
      rintro rfl
      exact hc hd
    rw [List.flatMap_cons, ih hs, escapeInString, if_neg hq, if_neg hb, if_neg (hne (by decide)),
      if_neg (hne (by decide)), if_neg (hne (by decide)), if_neg (hne (by decide)),
      if_neg (hne (by decide)), if_neg hc]
    rfl

/-- A string that needs no escapes is written between quotation marks as it is. -/
theorem printString_of_unescaped {s : Text} (h : Unescaped s) :
    printString false s = s.inQuotes := by
  rw [printString_eq, escaped_of_unescaped h]

/-- A string without escapes is printed for no other string. -/
theorem escaped_eq_iff (ht : Unescaped t) : s.flatMap (escapeInString false) = t ↔ s = t := by
  constructor
  · rintro rfl
    exact ((spells_printed s).eq_of_no_backslash fun hmem => (ht _ hmem).2.1 rfl).symm
  · rintro rfl
    exact escaped_of_unescaped ht

/-! ## Section 2: The names of a text -/

/-- The tree that a phrase contributes its entries to. -/
def Phrase.tree : Phrase → Json
  | .value v => v
  | .element v => v
  | .elements vs => arr vs
  | .member m => obj [m]
  | .members ms => obj ms

/-- A name that is spelled between quotation marks somewhere in a text. -/
def SpelledIn (name s : Text) : Prop := ∃ x, Spells x name ∧ x.inQuotes <:+: s

/-- A name that is spelled in a part of a text is spelled in the text. -/
theorem SpelledIn.mono (h : SpelledIn name s) (hst : s <:+: t) : SpelledIn name t := by
  obtain ⟨x, hx, hoccurs⟩ := h
  exact ⟨x, hx, hoccurs.trans hst⟩

private theorem hasEntry_arr_cons {v : Json} {vs : List Json} :
    (arr (v :: vs)).HasEntry name u ↔ v.HasEntry name u ∨ (arr vs).HasEntry name u := by
  simp only [hasEntry_arr, List.mem_cons, exists_eq_or_imp]

private theorem not_hasEntry_obj_nil : ¬ (obj []).HasEntry name u := by
  rw [hasEntry_obj]
  rintro (hmem | ⟨e, he, -⟩)
  · exact List.not_mem_nil hmem
  · exact List.not_mem_nil he

private theorem hasEntry_obj_cons {m : Text × Json} {ms : Entries Json} :
    (obj (m :: ms)).HasEntry name u ↔
      (name, u) = m ∨ m.2.HasEntry name u ∨ (obj ms).HasEntry name u := by
  simp only [hasEntry_obj, List.mem_cons, exists_eq_or_imp, or_assoc]
  exact or_congr_right or_left_comm

/-- Every name in a tree is spelled in the text of the tree. -/
theorem Derives.spelledIn {p : Phrase} (h : Derives p s) (hentry : p.tree.HasEntry name u) :
    SpelledIn name s := by
  -- a phrase hands the names of its parts on; only a member has a name of its own
  induction h with
  | null | boolTrue | boolFalse | string _ | emptyArray _ =>
    exact absurd hentry (not_hasEntry rfl rfl)
  | number h => exact absurd hentry (Numeral.isNumber_meaning _).not_hasEntry
  | emptyObject hw => exact absurd hentry not_hasEntry_obj_nil
  | array h ih => exact (ih hentry).mono (List.infix_cons (List.prefix_append _ _).isInfix)
  | object h ih => exact (ih hentry).mono (List.infix_cons (List.prefix_append _ _).isInfix)
  | element hl h hr ih => exact (ih hentry).mono (List.infix_append' _ _ _)
  | lastElement h ih =>
    rcases hasEntry_arr_cons.mp hentry with hv | hnil
    · exact ih hv
    · exact absurd hnil (not_hasEntry rfl rfl)
  | moreElements h hs ih ihs =>
    rcases hasEntry_arr_cons.mp hentry with hv | hvs
    · exact (ih hv).mono (List.prefix_append _ _).isInfix
    · exact (ihs hvs).mono ((List.suffix_cons _ _).trans (List.suffix_append _ _)).isInfix
  | @member l x r t k v hl hn hr h ih =>
    rcases hasEntry_obj_cons.mp hentry with heq | hv | hnil
    · cases heq
      exact ⟨x, hn, List.infix_append' _ _ _⟩
    · have hsuffix : t <:+ l ++ (x.inQuotes ++ (r ++ .scalar ':' :: t)) :=
        ((((List.suffix_cons _ _).trans (List.suffix_append r _)).trans
          (List.suffix_append x.inQuotes _)).trans (List.suffix_append l _))
      exact (ih hv).mono hsuffix.isInfix
    · exact absurd hnil not_hasEntry_obj_nil
  | lastMember h ih => exact ih hentry
  | moreMembers h hs ih ihs =>
    rcases hasEntry_obj_cons.mp hentry with heq | hv | hms
    · exact (ih (hasEntry_obj_cons.mpr (.inl heq))).mono (List.prefix_append _ _).isInfix
    · exact (ih (hasEntry_obj_cons.mpr (.inr (.inl hv)))).mono (List.prefix_append _ _).isInfix
    · exact (ihs hms).mono ((List.suffix_cons _ _).trans (List.suffix_append _ _)).isInfix

/-! ## Section 3: Lines -/

/-- The names in the value of a text are spelled in the text. -/
theorem HasEntry.spelledIn (h : w.HasEntry name u) (hp : parse s = .ok w) : SpelledIn name s := by
  obtain ⟨v, hv, -, rfl⟩ := parse_eq_ok_iff.mp hp
  obtain ⟨y, hy, -⟩ := h.of_merge
  exact hv.spelledIn hy

/-- What is spelled in a text without a backslash stands word for word on one of its lines. -/
theorem SpelledIn.exists_line (h : SpelledIn name s) (hs : .scalar '\\' ∉ s) :
    ∃ line ∈ s.lines, name.inQuotes <:+: line := by
  obtain ⟨x, hx, hoccurs⟩ := h
  have hplain : .scalar '\\' ∉ x := by
    intro hmem
    exact hs (hoccurs.subset (List.mem_cons_of_mem _ (List.mem_append_left _ hmem)))
  have hline : CodePoint.lineFeed ∉ x.inQuotes :=
    fun hmem => noControls_inQuotes hx.noControls _ hmem (by decide)
  rw [hx.eq_of_no_backslash hplain] at hoccurs hline
  exact Text.exists_line_of_infix hoccurs hline

end FormSchema.Json
