import DevicetreeFormat.Proofs.Blank

/-!
# Margins

Putting a margin before every line of a text that is not empty. A text is shifted
piece by piece: what a piece becomes depends only on whether it begins a line.
-/

namespace DevicetreeFormat.Text

set_option autoImplicit false

/-- Puts `margin` before every line that is not empty. `fresh` says whether the
first character begins a line. -/
def shiftFrom (margin : List Char) : Bool → List Char → List Char
  | _, [] => []
  | fresh, c :: rest =>
      (if fresh && c ≠ '\n' then margin else []) ++ c :: shiftFrom margin (c = '\n') rest

/-- Whether the character after a text begins a line. -/
def endsFresh : Bool → List Char → Bool
  | fresh, [] => fresh
  | _, c :: rest => endsFresh (c = '\n') rest

/-- The text with `margin` before every line that is not empty. -/
def indentLines (margin text : String) : String :=
  String.ofList (shiftFrom margin.toList true text.toList)

theorem ends_fresh_append (fresh : Bool) (first second : List Char) :
    endsFresh fresh (first ++ second) = endsFresh (endsFresh fresh first) second := by
  induction first generalizing fresh with
  | nil => rfl
  | cons c rest induction => exact induction (c = '\n')

theorem ends_fresh_concat (fresh : Bool) (text : List Char) (c : Char) :
    endsFresh fresh (text ++ [c]) = decide (c = '\n') := by
  rw [ends_fresh_append, endsFresh, endsFresh]

theorem exists_of_ends_fresh {text : List Char} (filled : text ≠ []) (fresh : endsFresh true text = true) :
    ∃ front, text = front ++ ['\n'] := by
  obtain ⟨front, c, rfl⟩ := List.eq_nil_or_concat text |>.resolve_left filled
  rw [List.concat_eq_append, ends_fresh_concat, decide_eq_true_eq] at fresh
  exact ⟨front, by rw [List.concat_eq_append, fresh]⟩

variable (margin : List Char)

@[simp] theorem shift_from_nil (fresh : Bool) : shiftFrom margin fresh [] = [] := rfl

theorem shift_from_append (fresh : Bool) (first second : List Char) :
    shiftFrom margin fresh (first ++ second) =
      shiftFrom margin fresh first ++ shiftFrom margin (endsFresh fresh first) second := by
  induction first generalizing fresh with
  | nil => rfl
  | cons c rest induction =>
      rw [List.cons_append, shiftFrom, shiftFrom, induction, endsFresh]
      simp

theorem shift_from_break (fresh : Bool) (rest : List Char) :
    shiftFrom margin fresh ('\n' :: rest) = '\n' :: shiftFrom margin true rest := by
  simp [shiftFrom]

theorem shift_from_fresh {text : List Char} (filled : text ≠ []) (first : text.head? ≠ some '\n') :
    shiftFrom margin true text = margin ++ shiftFrom margin false text := by
  cases text with
  | nil => exact absurd rfl filled
  | cons c rest =>
      have other : c ≠ '\n' := by simpa using first
      simp [shiftFrom, other]

theorem shift_from_unbroken {text : List Char} (unbroken : '\n' ∉ text) :
    shiftFrom margin false text = text := by
  induction text with
  | nil => rfl
  | cons c rest induction =>
      rw [List.mem_cons, not_or] at unbroken
      have other : c ≠ '\n' := fun same => unbroken.1 same.symm
      rw [shiftFrom, decide_eq_false other, induction unbroken.2]
      rfl

theorem ends_fresh_unbroken {text : List Char} (unbroken : '\n' ∉ text) :
    endsFresh false text = false := by
  induction text with
  | nil => rfl
  | cons c rest induction =>
      rw [List.mem_cons, not_or] at unbroken
      have other : c ≠ '\n' := fun same => unbroken.1 same.symm
      rw [endsFresh, decide_eq_false other, induction unbroken.2]

/-- The first line takes the margin unless it is empty, and the others follow. -/
theorem shift_from_line {line : List Char} (unbroken : '\n' ∉ line) (rest : List Char) :
    shiftFrom margin true (line ++ '\n' :: rest) =
      (if line = [] then [] else margin ++ line) ++ '\n' :: shiftFrom margin true rest := by
  by_cases empty : line = []
  · rw [if_pos empty, empty, List.nil_append, shift_from_break, List.nil_append]
  · have first : line.head? ≠ some '\n' := fun head => unbroken (List.mem_of_mem_head? head)
    have last : ∀ fresh, shiftFrom margin fresh ('\n' :: rest) = '\n' :: shiftFrom margin true rest :=
      fun fresh => shift_from_break margin fresh rest
    rw [if_neg empty, shift_from_append, shift_from_fresh margin empty first,
      shift_from_unbroken margin unbroken, last]

theorem shift_from_concat (fresh : Bool) (text : List Char) (c : Char) :
    ∃ front, shiftFrom margin fresh (text ++ [c]) = front ++ [c] := by
  rw [shift_from_append, shiftFrom, shift_from_nil, ← List.append_assoc]
  exact ⟨_, rfl⟩

theorem shift_from_no_margin (fresh : Bool) (text : List Char) : shiftFrom [] fresh text = text := by
  induction text generalizing fresh with
  | nil => rfl
  | cons c rest induction => rw [shiftFrom, ite_self, List.nil_append, induction]

end DevicetreeFormat.Text
