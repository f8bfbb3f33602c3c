import DevicetreeFormat.Proofs.Blank

/-!
# Normal forms of comments and keywords

Comments and directive keywords are each written in one way, whatever blanks they
had. The normal form is described here by how it looks, without the function that
makes it. Every result has that look, and a text that has it is left as it is; so
making the normal form twice is making it once.
-/

namespace DevicetreeFormat.Text

set_option autoImplicit false

/-- No blank stands at either end of the text. -/
structure Flush (text : String) : Prop where
  first : ∀ c ∈ text.toList.head?, isBlank c = false
  last : ∀ c ∈ text.toList.getLast?, isBlank c = false

theorem flush_strip (text : String) : Flush (strip text) := by
  by_cases empty : strip text = ""
  · rw [empty]
    exact ⟨by simp, by simp⟩
  · obtain ⟨c, rest, head, inked⟩ := strip_first text empty
    obtain ⟨front, d, concat, ended⟩ := strip_last text empty
    exact ⟨by simpa [head] using inked, by simpa [concat] using ended⟩

theorem Flush.strip_eq {text : String} (flush : Flush text) : strip text = text :=
  strip_eq_self flush.first flush.last

theorem strip_strip (text : String) : strip (strip text) = strip text :=
  (flush_strip text).strip_eq

/-- A function that writes texts in the one way that `Form` describes, and changes
nothing but blanks. -/
structure Normalises (normal : String → String) (Form : String → Prop) : Prop where
  idempotent : ∀ text, normal (normal text) = normal text
  ink_eq : ∀ text, ink (normal text) = ink text
  flush : ∀ text, Flush (normal text)
  strip_eq : ∀ text, normal (strip text) = normal text
  eq_self_iff : ∀ text, normal text = text ↔ Form text

theorem normalises_of_form {normal : String → String} {Form : String → Prop}
    (formed : ∀ text, Form (normal text)) (fixed : ∀ text, Form text → normal text = text)
    (flush : ∀ text, Form text → Flush text) (ink_eq : ∀ text, ink (normal text) = ink text)
    (strip_eq : ∀ text, normal (strip text) = normal text) : Normalises normal Form where
  idempotent text := fixed _ (formed text)
  ink_eq := ink_eq
  flush text := flush _ (formed text)
  strip_eq := strip_eq
  eq_self_iff text := by
    constructor
    · intro same
      rw [← same]
      exact formed text
    · exact fixed text

end DevicetreeFormat.Text

namespace DevicetreeFormat

set_option autoImplicit false

open Text

/-! ### Comments -/

/-- A comment in normal form: the slashes of a line comment stand alone, or one
space and no other blank stands between them and the body. -/
structure IsNormalComment (text : String) : Prop extends Flush text where
  body : ∀ rest, text.toList = '/' :: '/' :: rest →
    rest = [] ∨ ∃ c more, rest = ' ' :: c :: more ∧ isBlank c = false

theorem normal_comment_is_normal (text : String) : IsNormalComment (normalComment text) := by
  by_cases line : isLineComment (strip text) = true
  · obtain ⟨rest, shape⟩ := (is_line_comment_iff _).mp line
    rw [normal_comment_of_line shape]
    by_cases empty : strip (String.ofList rest) = ""
    · rw [if_pos empty]
      have slash : isBlank '/' = false := rfl
      refine ⟨⟨by simp [slash], by simp [slash]⟩, ?_⟩
      intro others same
      exact .inl (List.cons.inj (List.cons.inj same).2).2.symm
    · obtain ⟨c, more, head, first⟩ := strip_first _ empty
      obtain ⟨front, d, concat, last⟩ := strip_last _ empty
      rw [if_neg empty]
      refine ⟨⟨by simp [show isBlank '/' = false from rfl], ?_⟩, ?_⟩
      · simpa [concat, List.getLast?_cons] using last
      · intro others same
        rw [String.toList_append, head] at same
        exact .inr ⟨c, more, (List.cons.inj (List.cons.inj same).2).2.symm, first⟩
  · rw [normal_comment_of_block (by simpa using line)]
    refine ⟨flush_strip text, ?_⟩
    intro rest shape
    exact absurd ((is_line_comment_iff _).mpr ⟨rest, shape⟩) line

theorem normal_comment_of_is_normal {text : String} (normal : IsNormalComment text) :
    normalComment text = text := by
  have stripped : strip text = text := normal.strip_eq
  by_cases line : isLineComment text = true
  · obtain ⟨rest, shape⟩ := (is_line_comment_iff _).mp line
    rw [normal_comment_of_line (by rw [stripped, shape])]
    rcases normal.body rest shape with rfl | ⟨c, more, rfl, inked⟩
    · rw [if_pos (by decide), ← String.toList_inj, shape]
      rfl
    · -- the space after the slashes is the only blank that the body loses
      have body : strip (String.ofList (' ' :: c :: more)) = String.ofList (c :: more) := by
        rw [strip_cons_blank rfl]
        apply strip_eq_self
        · simpa using inked
        · have last := normal.last
          simpa [shape, List.getLast?_cons_cons] using last
      rw [body, if_neg (by simp [← String.toList_inj]), ← String.toList_inj, shape]
      simp
  · rw [normal_comment_of_block (by rw [stripped]; simpa using line), stripped]

theorem normal_comment_normal_comment (text : String) :
    normalComment (normalComment text) = normalComment text :=
  normal_comment_of_is_normal (normal_comment_is_normal text)

theorem normal_comment_strip (text : String) : normalComment (strip text) = normalComment text := by
  rw [normalComment, normalComment, strip_strip]

/-! ### Directive keywords -/

/-- A keyword in normal form: no blank follows its hash. -/
structure IsKeyword (text : String) : Prop extends Flush text where
  joined : ∀ c rest, text.toList = '#' :: c :: rest → isBlank c = false

theorem directive_keyword_of_hash {text : String} {rest : List Char}
    (shape : (strip text).toList = '#' :: rest) :
    directiveKeyword text = String.ofList ('#' :: dropFront isBlank rest) := by
  rw [directiveKeyword, shape]
  rfl

theorem directive_keyword_of_plain {text : String}
    (plain : ∀ rest, (strip text).toList ≠ '#' :: rest) : directiveKeyword text = strip text := by
  unfold directiveKeyword
  split
  · next rest shape => exact absurd shape (plain rest)
  · exact String.ofList_toList

theorem getLast?_drop_front {rest : List Char} {inClass : Char → Bool} {c : Char}
    (last : (dropFront inClass rest).getLast? = some c) : rest.getLast? = some c := by
  obtain ⟨dropped, split⟩ := List.dropWhile_suffix (l := rest) inClass
  rw [dropFront] at last
  rw [← split, List.getLast?_append, last]
  rfl

theorem directive_keyword_is_keyword (text : String) : IsKeyword (directiveKeyword text) := by
  have stripped := flush_strip text
  by_cases hashed : ∃ rest, (strip text).toList = '#' :: rest
  · obtain ⟨rest, shape⟩ := hashed
    rw [directive_keyword_of_hash shape]
    refine ⟨⟨?_, ?_⟩, ?_⟩
    · simp [show isBlank '#' = false from rfl]
    · -- what follows the hash ends as the stripped text does
      intro c last
      rw [String.toList_ofList, List.getLast?_cons, Option.mem_some] at last
      cases kept : (dropFront isBlank rest).getLast? with
      | none =>
          rw [← last, kept]
          rfl
      | some d =>
          have ended := stripped.last d
          rw [shape, List.getLast?_cons, getLast?_drop_front kept] at ended
          rw [← last, kept]
          exact ended rfl
    · intro c more same
      rw [String.toList_ofList] at same
      exact drop_front_head (List.cons.inj same).2
  · rw [directive_keyword_of_plain fun rest shape => hashed ⟨rest, shape⟩]
    refine ⟨stripped, ?_⟩
    intro c rest shape
    exact absurd ⟨c :: rest, shape⟩ hashed

theorem directive_keyword_of_is_keyword {text : String} (keyword : IsKeyword text) :
    directiveKeyword text = text := by
  have stripped : strip text = text := keyword.strip_eq
  by_cases hashed : ∃ rest, text.toList = '#' :: rest
  · obtain ⟨rest, shape⟩ := hashed
    have kept : dropFront isBlank rest = rest := by
      apply drop_front_eq_self
      intro c head
      obtain ⟨more, rfl⟩ := List.head?_eq_some_iff.mp head
      exact keyword.joined c more shape
    rw [directive_keyword_of_hash (by rw [stripped, shape]), kept, ← shape, String.ofList_toList]
  · rw [directive_keyword_of_plain (by rw [stripped]; exact fun rest shape => hashed ⟨rest, shape⟩),
      stripped]

theorem directive_keyword_strip (text : String) :
    directiveKeyword (strip text) = directiveKeyword text := by
  rw [directiveKeyword, directiveKeyword, strip_strip]

/-- Comments and directive keywords have normal forms that differ from their texts
in blanks alone and have none at their ends. A normal form is its own, and it is
the same for all texts that differ in the blanks around them. -/
theorem normalises_comment_keyword :
    Normalises normalComment IsNormalComment ∧ Normalises directiveKeyword IsKeyword := by
  constructor
  · exact normalises_of_form normal_comment_is_normal (fun _ => normal_comment_of_is_normal)
      (fun _ => IsNormalComment.toFlush) ink_normal_comment normal_comment_strip
  · exact normalises_of_form directive_keyword_is_keyword (fun _ => directive_keyword_of_is_keyword)
      (fun _ => IsKeyword.toFlush) ink_directive_keyword directive_keyword_strip

end DevicetreeFormat
