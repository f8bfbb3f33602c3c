import DevicetreeFormat.Proofs.Comments.Lines

/-!
# All comments of a tree

The comments of a tree that are not part of a token printed verbatim, in order,
each with what becomes of it: it is printed in its normal form, it is printed as it
stands in the source, or it is lost. This depends on how the rule for the node above
reads its children.

A text holds a list of texts if they occur in it one after the other, at places that
do not overlap. Commands show texts if they write a text that holds them. The second
half of the module shows the comments of everything that is printed from the tokens
of its children.
-/

namespace DevicetreeFormat

set_option autoImplicit false

open Text

/-- What becomes of a comment. -/
inductive Treatment
  /-- It is printed in its normal form. -/
  | normal
  /-- It is printed without the blanks around it. -/
  | bare
  | lost
deriving DecidableEq

def Treatment.shown : Treatment → String → Option String
  | .normal, text => some (normalComment text)
  | .bare, text => some (strip text)
  | .lost, _ => none

/-- How a rule reads the children of a node. -/
inductive Reading
  /-- Each child is printed by its own rule. Branches of conditionals are printed as
  branches if `branching`, and then the closing keyword is not printed. -/
  | items (branching : Bool)
  /-- The children are tokens on a line. -/
  | words
  /-- The children are tokens up to the opening brace. -/
  | header
  /-- The children are tokens and a wrapped item. -/
  | wrapper
  /-- The children are tokens up to the equals sign. -/
  | names
  | values
  | cells
  /-- The next children are words on the first line of a branch. -/
  | line (left : Nat)
  /-- Only the last named child is printed. -/
  | path
  /-- The children are digits. -/
  | digits
  /-- The children are not read; the text of the node is printed. -/
  | text
deriving DecidableEq

namespace Reading

/-- How the children of a node are read. `branching` says that the node is printed as
a branch of a conditional if it is one. -/
def ofKind (branching : Bool) (kind : Kind) : Reading :=
  match kind with
  | .fileVersion | .plugin | .memoryReservation | .deleteNode | .deleteProperty
  | .includeDirective | .defineDirective | .functionDirective | .callDirective => .words
  | .fileInclude => .path
  | .omitIfNoRef | .labeledItem => .wrapper
  | .ifDirective | .ifdefDirective => .line (Tree.branchWords kind)
  | .elseBranch | .elifBranch | .elifdefBranch =>
      if branching then .line (Tree.branchWords kind) else .items false
  | .node => .header
  | .property => .names
  | .integerCells => .cells
  | .byteString => .digits
  | .document | .unknown => .items false
  | _ => .text

theorem of_kind_branch {kind : Kind} (branch : kind.isBranch = true) :
    ofKind true kind = .line (Tree.branchWords kind) := by
  cases kind <;> cases branch <;> rfl

theorem of_kind_plain {kind : Kind} (plain : kind.isBranch = false) : ofKind true kind = ofKind false kind := by
  cases kind <;> cases plain <;> rfl

def branching : Reading → Bool
  | .items branching => branching
  | _ => false

/-- Whether the child is not printed at all. -/
def skips : Reading → Tree → Bool
  | .items true, tree => tree.isEndif
  | _, _ => false

/-- What becomes of a comment with the siblings `rest` after it. -/
def treatment : Reading → Tree → List Tree → Option Treatment
  | .items _, _, _ | .names, _, _ | .values, _, _ | .cells, _, _ => some .normal
  | .words, _, _ | .header, _, _ | .wrapper, _, _ | .line _, _, _ => some .bare
  | .path, tree, rest => if tree.named && !rest.any Tree.named then some .bare else some .lost
  | .digits, _, _ => some .lost
  | .text, _, _ => none

/-- Whether the child is printed by its own rule. -/
def owns : Reading → Tree → Bool
  | .items _, _ | .values, _ => true
  | .wrapper, tree => tree.kind.isWrappable
  | _, _ => false

/-- How the children after this one are read. -/
def next : Reading → Tree → Reading
  | .header, tree => if tree.kind = .leftBrace then .items false else .header
  | .names, tree => if tree.kind = .equals then .values else .names
  | .line left, _ => if left ≤ 1 then .items true else .line (left - 1)
  | reading, _ => reading

end Reading

namespace Tree

mutual

/-- The comments of a tree that is printed by its own rule. -/
def remarks (branching : Bool) : Tree → List (Treatment × String)
  | branch name text _ _ _ children =>
      if Kind.ofName name = .comment then [(.normal, text)]
      else remarksIn (Reading.ofKind branching (Kind.ofName name)) children

def remarksIn (reading : Reading) : List Tree → List (Treatment × String)
  | [] => []
  | tree :: rest =>
      (if reading.skips tree then []
        else if tree.kind = .comment then
          (reading.treatment tree rest).toList.map fun treatment => (treatment, tree.text)
        else if reading.owns tree then remarks reading.branching tree
        else []) ++
      remarksIn (reading.next tree) rest

end

/-- The comments as they are printed. -/
def shown (remarks : List (Treatment × String)) : List String :=
  remarks.filterMap fun remark => remark.1.shown remark.2

theorem shown_append (first second : List (Treatment × String)) :
    shown (first ++ second) = shown first ++ shown second :=
  List.filterMap_append

theorem remarks_comment (branching : Bool) {tree : Tree} (comment : tree.kind = .comment) :
    tree.remarks branching = [(.normal, tree.text)] := by
  cases tree
  exact if_pos comment

theorem remarks_node (branching : Bool) {tree : Tree} (code : tree.kind ≠ .comment) :
    tree.remarks branching = remarksIn (Reading.ofKind branching tree.kind) tree.children := by
  cases tree
  exact if_neg code

/-- Where no child is printed by its own rule and all comments are treated alike. -/
theorem shown_tokens {reading : Reading} {treatment : Option Treatment}
    (steady : ∀ tree, reading.next tree = reading)
    (unread : ∀ tree, reading.skips tree = false ∧ reading.owns tree = false)
    (alike : ∀ tree rest, reading.treatment tree rest = treatment) (trees : List Tree) :
    shown (remarksIn reading trees) = ((trees.map cell).filter Cell.isComment).filterMap
      fun cell => treatment.bind fun treatment => treatment.shown cell.text := by
  induction trees with
  | nil => rfl
  | cons tree rest induction =>
      rw [remarksIn, steady, shown_append, induction, (unread tree).1, (unread tree).2, alike]
      by_cases comment : tree.kind = .comment
      · cases treatment with
        | none => simp [comment, shown]
        | some treatment =>
            cases printed : treatment.shown tree.text <;>
              simp [comment, cell, Cell.isComment, shown, printed]
      · simp [comment, cell, Cell.isComment, shown]

theorem shown_text (trees : List Tree) : shown (remarksIn .text trees) = [] := by
  rw [shown_tokens (fun _ => rfl) (fun _ => ⟨rfl, rfl⟩) (fun _ _ => rfl)]
  simp

/-- Tokens that are printed verbatim and punctuation have no comments of their own. -/
theorem shown_token {branching : Bool} {tree : Tree} (token : Reading.ofKind branching tree.kind = .text)
    (code : tree.kind ≠ .comment) : shown (tree.remarks branching) = [] := by
  rw [remarks_node branching code, token, shown_text]

theorem shown_words (trees : List Tree) :
    shown (remarksIn .words trees) = ((trees.map cell).filter Cell.isComment).map Cell.token := by
  rw [shown_tokens (fun _ => rfl) (fun _ => ⟨rfl, rfl⟩) (fun _ _ => rfl)]
  exact congrFun List.filterMap_eq_map _

theorem shown_cells (trees : List Tree) :
    shown (remarksIn .cells trees) =
      ((trees.map cell).filter Cell.isComment).map fun cell => normalComment cell.text := by
  rw [shown_tokens (fun _ => rfl) (fun _ => ⟨rfl, rfl⟩) (fun _ _ => rfl)]
  exact congrFun List.filterMap_eq_map _

theorem shown_digits (trees : List Tree) : shown (remarksIn .digits trees) = [] := by
  rw [shown_tokens (fun _ => rfl) (fun _ => ⟨rfl, rfl⟩) (fun _ _ => rfl)]
  simp [Treatment.shown]

/-! The comment of the first child, then those of the others. -/

theorem shown_items (branching : Bool) (tree : Tree) (rest : List Tree) :
    shown (remarksIn (.items branching) (tree :: rest)) =
      (if branching && tree.isEndif then [] else shown (tree.remarks branching)) ++
        shown (remarksIn (.items branching) rest) := by
  rw [remarksIn, shown_append]
  by_cases comment : tree.kind = .comment
  · cases branching <;> cases skipped : tree.isEndif <;>
      simp [Reading.skips, Reading.treatment, Reading.next, remarks_comment, comment, skipped, shown]
  · cases branching <;> cases skipped : tree.isEndif <;>
      simp [Reading.skips, Reading.owns, Reading.branching, Reading.next, comment, skipped, shown]

theorem shown_wrapper (tree : Tree) (rest : List Tree) :
    shown (remarksIn .wrapper (tree :: rest)) =
      (if tree.kind = .comment then [tree.token]
        else if tree.kind.isWrappable then shown (tree.remarks false) else []) ++
        shown (remarksIn .wrapper rest) := by
  rw [remarksIn, shown_append]
  by_cases comment : tree.kind = .comment
  · simp [Reading.skips, Reading.treatment, Reading.next, comment, shown, Treatment.shown, token]
  · cases wrappable : tree.kind.isWrappable <;>
      simp [Reading.skips, Reading.owns, Reading.branching, Reading.next, comment, wrappable, shown]

theorem shown_header (tree : Tree) (rest : List Tree) :
    shown (remarksIn .header (tree :: rest)) =
      (if tree.kind = .comment then [tree.token] else []) ++
        shown (remarksIn (if tree.kind = .leftBrace then .items false else .header) rest) := by
  rw [remarksIn, shown_append]
  by_cases comment : tree.kind = .comment <;>
    simp [Reading.skips, Reading.treatment, Reading.owns, Reading.next, comment, shown, Treatment.shown, token]

def propertyReading (seenEquals : Bool) : Reading :=
  if seenEquals then .values else .names

theorem shown_property (seenEquals : Bool) (tree : Tree) (rest : List Tree) :
    shown (remarksIn (propertyReading seenEquals) (tree :: rest)) =
      (if tree.kind = .comment then [normalComment tree.text]
        else if seenEquals then shown (tree.remarks false) else []) ++
        shown (remarksIn (propertyReading (seenEquals || decide (tree.kind = .equals))) rest) := by
  rw [remarksIn, shown_append]
  by_cases comment : tree.kind = .comment <;> cases seenEquals <;>
    simp [propertyReading, Reading.skips, Reading.treatment, Reading.owns, Reading.branching, Reading.next,
      comment, shown, Treatment.shown]

theorem shown_line (left : Nat) (tree : Tree) (rest : List Tree) :
    shown (remarksIn (.line left) (tree :: rest)) =
      (if tree.kind = .comment then [tree.token] else []) ++
        shown (remarksIn (if left ≤ 1 then .items true else .line (left - 1)) rest) := by
  rw [remarksIn, shown_append]
  by_cases comment : tree.kind = .comment <;>
    simp [Reading.skips, Reading.treatment, Reading.owns, Reading.next, comment, shown, Treatment.shown, token]

/-- Of an include only the last named child can be a comment that is printed. -/
theorem shown_path (trees : List Tree) :
    shown (remarksIn .path trees) =
      ((trees.filter named).getLast?.filter fun tree => tree.kind = .comment).toList.map token := by
  induction trees with
  | nil => rfl
  | cons tree rest induction =>
      have next : Reading.path.next tree = .path := rfl
      rw [remarksIn, shown_append, next, induction]
      by_cases later : rest.any named = true
      · have more : rest.filter named ≠ [] := by simpa using later
        have last : ((tree :: rest).filter named).getLast? = (rest.filter named).getLast? := by
          rw [List.filter_cons]
          split
          · exact List.getLast?_cons_of_ne_nil more
          · rfl
        rw [last]
        by_cases comment : tree.kind = .comment <;>
          simp [Reading.skips, Reading.treatment, Reading.owns, later, comment, shown, Treatment.shown]
      · have none : rest.filter named = [] := by simpa using later
        by_cases comment : tree.kind = .comment <;> cases titled : tree.named <;>
          simp [Reading.skips, Reading.treatment, Reading.owns, later, none, comment, titled, shown,
            Treatment.shown, token, Option.filter_some]

end Tree

/-! ### Texts that hold others -/

/-- The texts occur one after the other, at places that do not overlap. -/
def Holds : List String → List Char → Prop
  | [], _ => True
  | text :: rest, whole => ∃ before after, whole = before ++ text.toList ++ after ∧ Holds rest after

theorem Holds.behind {texts : List String} {whole : List Char} (holds : Holds texts whole)
    (lead : List Char) : Holds texts (lead ++ whole) := by
  cases texts with
  | nil => trivial
  | cons text rest =>
      obtain ⟨before, after, rfl, later⟩ := holds
      exact ⟨lead ++ before, after, by simp, later⟩

theorem Holds.append {first second : List String} {front back : List Char} (left : Holds first front)
    (right : Holds second back) : Holds (first ++ second) (front ++ back) := by
  induction first generalizing front with
  | nil => exact right.behind front
  | cons text rest induction =>
      obtain ⟨before, after, rfl, later⟩ := left
      exact ⟨before, after ++ back, by simp, induction later⟩

theorem Holds.before {texts : List String} {whole : List Char} (holds : Holds texts whole)
    (more : List Char) : Holds texts (whole ++ more) := by
  have both : Holds (texts ++ []) (whole ++ more) := holds.append trivial
  rwa [List.append_nil] at both

theorem holds_self (text : String) : Holds [text] text.toList :=
  ⟨[], [], by simp, trivial⟩

theorem Holds.sublist {texts fewer : List String} (sublist : fewer.Sublist texts) {whole : List Char}
    (holds : Holds texts whole) : Holds fewer whole := by
  induction sublist generalizing whole with
  | slnil => trivial
  | cons text _ induction =>
      obtain ⟨before, after, rfl, later⟩ := holds
      exact (induction later).behind _
  | cons_cons text _ induction =>
      obtain ⟨before, after, rfl, later⟩ := holds
      exact ⟨before, after, rfl, induction later⟩

/-- An empty text occurs everywhere. -/
theorem holds_of_inked {texts : List String} {whole : List Char}
    (holds : Holds (texts.filter fun text => !text.isEmpty) whole) : Holds texts whole := by
  induction texts generalizing whole with
  | nil => trivial
  | cons text rest induction =>
      by_cases empty : text = ""
      · rw [List.filter_cons_of_neg (by simp [empty])] at holds
        exact ⟨[], whole, by simp [empty], induction holds⟩
      · rw [List.filter_cons_of_pos (by simpa using empty)] at holds
        obtain ⟨before, after, shape, later⟩ := holds
        exact ⟨before, after, shape, induction later⟩

theorem holds_join (texts : List String) : Holds texts (String.join texts).toList := by
  rw [String.toList_join]
  induction texts with
  | nil => trivial
  | cons text rest induction =>
      rw [List.flatMap_cons]
      exact (holds_self text).append induction

theorem holds_intercalate (separator : String) (texts : List String) :
    Holds texts (separator.intercalate texts).toList := by
  induction texts with
  | nil => trivial
  | cons text rest induction =>
      cases rest with
      | nil =>
          rw [String.intercalate_singleton]
          exact holds_self text
      | cons next others =>
          rw [String.intercalate_cons_cons, String.toList_append, String.toList_append]
          exact ((holds_self text).before _).append induction

namespace Printer

/-! ### The judgement -/

/-- Whatever was written before, the commands add a text that holds `texts`. -/
structure Shows (texts : List String) (commands : List Command) : Prop where
  adds : ∀ output : Output, ∃ added,
    (output.after commands).written = output.written ++ added ∧ Holds texts added

theorem shows_nothing (commands : List Command) : Shows [] commands := by
  refine ⟨fun output => ?_⟩
  obtain ⟨added, adds⟩ := after_adds commands output
  exact ⟨added, adds, trivial⟩

theorem shows_of_nil {texts : List String} (none : texts = []) (commands : List Command) :
    Shows texts commands := by
  rw [none]
  exact shows_nothing commands

theorem shows_append {first second : List String} {front back : List Command} (left : Shows first front)
    (right : Shows second back) : Shows (first ++ second) (front ++ back) := by
  refine ⟨fun output => ?_⟩
  obtain ⟨added, adds, holds⟩ := left.adds output
  obtain ⟨more, further, also⟩ := right.adds (output.after front)
  exact ⟨added ++ more, by rw [Output.after_append, further, adds, List.append_assoc], holds.append also⟩

theorem shows_cons {first second : List String} {command : Command} {rest : List Command}
    (left : Shows first [command]) (right : Shows second rest) :
    Shows (first ++ second) (command :: rest) :=
  shows_append left right

theorem shows_write {texts : List String} {text : String} (holds : Holds texts text.toList) :
    Shows texts [.write text] :=
  ⟨fun output => ⟨text.toList, by simp [Output.step], holds⟩⟩

theorem Shows.behind {texts : List String} {commands : List Command} (shows : Shows texts commands)
    (lead : List Command) : Shows texts (lead ++ commands) :=
  shows_append (shows_nothing lead) shows

theorem Shows.before {texts : List String} {commands : List Command} (shows : Shows texts commands)
    (more : List Command) : Shows texts (commands ++ more) := by
  have both : Shows (texts ++ []) (commands ++ more) := shows_append shows (shows_nothing more)
  rwa [List.append_nil] at both

/-- A line between its indentation and its end. -/
theorem shows_line {texts : List String} {line : String} (holds : Holds texts line.toList)
    (indentation ending : String) (more : List Command) :
    Shows texts (writes [indentation, line, ending] ++ more) :=
  (((shows_write holds).behind [.write indentation]).before [.write ending]).before more

/-! ### Lines -/

theorem print_comment_shows (place : Place) (text : String) (context : Context) :
    Shows [normalComment text] (printComment place text context) := by
  have line := shows_line (holds_self (normalComment text)) context.indentation "\n" []
  rw [List.append_nil] at line
  exact line.behind (apart place)

theorem comment_tokens_sublist (cells : List Cell) :
    ((cells.filter Cell.isComment).map Cell.token).Sublist (cells.map Cell.token) :=
  List.filter_sublist.map _

theorem print_header_shows (place : Place) (cells : List Cell) (context : Context) :
    Shows ((cells.filter Cell.isComment).map Cell.token) (printHeader place cells context) :=
  shows_line ((holds_join (cells.map Cell.token)).sublist (comment_tokens_sublist cells)) _ _ _

theorem holds_token (cell : Cell) {later : List Cell} {rest : List Char}
    (holds : Holds ((later.filter Cell.isComment).map Cell.token) rest) :
    Holds (((cell :: later).filter Cell.isComment).map Cell.token) (cell.token.toList ++ rest) := by
  by_cases comment : cell.isComment = true
  · rw [List.filter_cons_of_pos comment, List.map_cons]
    exact (holds_self cell.token).append holds
  · rw [List.filter_cons_of_neg comment]
    exact holds.behind _

/-- However tokens are joined to the words before them, the comments among them are there. -/
theorem join_word_holds (cells : List Cell) (word : String) (words : List String) :
    ∃ more : String, " ".intercalate (cells.foldl joinWord (word :: words)).reverse =
        " ".intercalate (word :: words).reverse ++ more ∧
      Holds ((cells.filter Cell.isComment).map Cell.token) more.toList := by
  induction cells generalizing word words with
  | nil => exact ⟨"", by simp, trivial⟩
  | cons cell later induction =>
      rw [List.foldl_cons, joinWord]
      by_cases colon : cell.kind = .colon
      · obtain ⟨more, shape, holds⟩ := induction (word ++ ":") words
        have code : ¬cell.isComment = true := by simp [Cell.isComment, colon]
        refine ⟨":" ++ more, ?_, ?_⟩
        · rw [if_pos colon, shape, intercalate_longer, String.append_assoc]
        · rw [List.filter_cons_of_neg code, String.toList_append]
          exact holds.behind _
      rw [if_neg colon]
      by_cases glued : (cell.kind = .atSign || endsWith "@" word) = true
      · obtain ⟨more, shape, holds⟩ := induction (word ++ cell.token) words
        refine ⟨cell.token ++ more, ?_, ?_⟩
        · rw [if_pos glued, shape, intercalate_longer, String.append_assoc]
        · rw [String.toList_append]
          exact holds_token cell holds
      · obtain ⟨more, shape, holds⟩ := induction cell.token (word :: words)
        refine ⟨" " ++ (cell.token ++ more), ?_, ?_⟩
        · rw [if_neg glued, shape, intercalate_another, String.append_assoc, String.append_assoc]
        · rw [String.toList_append, String.toList_append]
          exact (holds_token cell holds).behind _

/-- The tokens up to the semicolon are printed; where it comes last, no comment is behind it. -/
theorem takeWhile_comments {cells : List Cell} (ended : ∀ cell ∈ cells.dropLast, cell.kind ≠ .semicolon) :
    (cells.takeWhile fun cell => cell.kind ≠ .semicolon).filter Cell.isComment =
      cells.filter Cell.isComment := by
  rcases List.eq_nil_or_concat cells with rfl | ⟨front, last, rfl⟩
  · rfl
  · rw [List.concat_eq_append, List.dropLast_concat] at ended
    have all : ∀ cell ∈ front, decide (cell.kind ≠ .semicolon) = true :=
      fun cell member => decide_eq_true (ended cell member)
    rw [List.concat_eq_append, List.takeWhile_append_of_pos all, List.filter_append, List.filter_append]
    by_cases semicolon : last.kind = .semicolon <;> simp [Cell.isComment, semicolon]

theorem print_statement_shows {cells : List Cell} (ended : ∀ cell ∈ cells.dropLast, cell.kind ≠ .semicolon)
    (context : Context) :
    Shows ((cells.filter Cell.isComment).map Cell.token) (printStatement cells context) := by
  rw [← takeWhile_comments ended]
  have words : Holds
      (((cells.takeWhile fun cell => cell.kind ≠ .semicolon).filter Cell.isComment).map Cell.token)
      (" ".intercalate (statementWords cells)).toList := by
    rw [statementWords]
    cases cells.takeWhile fun cell => cell.kind ≠ .semicolon with
    | nil => trivial
    | cons first rest =>
        obtain ⟨more, shape, holds⟩ := join_word_holds rest first.token []
        rw [List.foldl_cons, joinWord, shape, String.toList_append]
        simpa using holds_token first holds
  have line := shows_line words context.indentation ";\n" []
  rwa [List.append_nil] at line

theorem operand_words_hold (keyword : String) (kind : Kind) (tokens : List String) :
    Holds tokens (" ".intercalate (keyword :: operandWords kind tokens)).toList := by
  have plain : ∀ words : List String, Holds words (" ".intercalate (keyword :: words)).toList :=
    fun words => (holds_intercalate " " (keyword :: words)).sublist (List.sublist_cons_self _ _)
  unfold operandWords
  split
  · next name parameters rest =>
      rw [String.intercalate_cons_cons, String.intercalate_cons_append, String.toList_append,
        String.toList_append, String.toList_append]
      exact ((holds_self name).append (holds_intercalate " " (parameters :: rest))).behind _
  · exact plain tokens

theorem print_directive_shows (place : Place) (kind : Kind) (head : Cell) (cells : List Cell) (context : Context) :
    Shows ((cells.filter Cell.isComment).map Cell.token) (printDirective place kind (head :: cells) context) := by
  have inked : (((cells.filter Cell.isComment).map Cell.token).filter fun token => !token.isEmpty).Sublist
      (operandTokens cells) :=
    (comment_tokens_sublist cells).filter _
  rw [printDirective]
  exact shows_line (holds_of_inked ((operand_words_hold _ kind (operandTokens cells)).sublist inked)) _ _ _

/-! ### Cell lists -/

theorem write_cells_holds (context : Context) (tokens : List String) (text : String) (gap : Gap) :
    ∃ more : String, writeCells context text gap tokens = text ++ more ∧ Holds tokens more.toList := by
  induction tokens generalizing text gap with
  | nil =>
      cases gap with
      | line => exact ⟨"\n" ++ context.indentation, by rw [writeCells, String.append_assoc], trivial⟩
      | none | space => exact ⟨"", by simp [writeCells], trivial⟩
  | cons token later induction =>
      obtain ⟨more, shape, holds⟩ := induction (text ++ (gapBefore text token gap).text context ++ token)
        (if isLineComment token then .line else .space)
      refine ⟨(gapBefore text token gap).text context ++ (token ++ more), ?_, ?_⟩
      · rw [writeCells, shape]
        simp only [String.append_assoc]
      · rw [String.toList_append, String.toList_append]
        exact ((holds_self token).append holds).behind _

theorem plain_cells_holds (cells : List Cell) (context : Context) :
    Holds ((cells.filter Cell.isComment).map fun cell => normalComment cell.text)
      (plainCells cells context).toList := by
  have comments : (cells.filter Cell.isComment).map (fun cell => normalComment cell.text) =
      ((cells.filter fun cell => !cell.isAngle).filter Cell.isComment).map cellToken := by
    rw [List.filter_filter]
    have same : cells.filter Cell.isComment = cells.filter fun cell => cell.isComment && !cell.isAngle := by
      apply List.filter_congr
      intro cell _
      cases comment : cell.isComment with
      | false => rfl
      | true =>
          rw [Cell.isComment, decide_eq_true_eq] at comment
          simp [Cell.isAngle, comment]
    rw [← same]
    apply List.map_congr_left
    intro cell member
    rw [cellToken, if_pos (List.mem_filter.mp member).2]
  obtain ⟨more, shape, holds⟩ := write_cells_holds context
    ((cells.filter fun cell => !cell.isAngle).map cellToken) "<" .none
  rw [comments, plainCells, shape, String.toList_append, String.toList_append]
  exact ((holds.sublist (List.filter_sublist.map _)).behind _).before _

theorem comment_lines_hold (indentation first : String) (notes rest : List String) :
    Holds notes ("\n".intercalate (first :: (notes.map (indentation ++ ·) ++ rest))).toList := by
  induction notes generalizing first with
  | nil => trivial
  | cons note later induction =>
      have line : indentation ++ note = indentation ++ (note ++ "") := by rw [String.append_empty]
      rw [List.map_cons, List.cons_append, String.intercalate_cons_cons, line,
        String.intercalate_cons_append, String.intercalate_cons_append]
      simp only [String.toList_append]
      exact (((holds_self note).append (induction "")).behind _).behind _

theorem print_cells_shows (layout : Layout) (cells : List Cell) (context : Context) :
    Shows ((cells.filter Cell.isComment).map fun cell => normalComment cell.text)
      (printCells layout cells context) := by
  rw [printCells]
  split
  · apply Shows.behind
    rw [Table.render_eq]
    apply shows_write
    have lines := comment_lines_hold context.indentation "<"
      ((cells.filter Cell.isComment).map fun cell => normalComment cell.text)
      (Table.rowsOf cells layout context.indentation ++ [context.shallower.indentation ++ ">"])
    rw [List.map_map] at lines
    rw [List.append_assoc]
    exact lines
  · exact shows_write (plain_cells_holds cells context)

end Printer

end DevicetreeFormat
