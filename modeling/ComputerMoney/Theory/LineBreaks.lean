/-
# Theory.LineBreaks -- a text cut into lines, and cut at CRLF

A line ends at a newline, and a carriage return before it is part of the end.  A text of whole
lines can be cut at every newline, or only where both characters stand; then a piece holds
every line up to the next that ends in both.  The lines of the pieces are the lines of the text
(`lineTexts_append_nil`).
-/
import ComputerMoney.Theory.Text

namespace ComputerMoney.Theory.Text

set_option autoImplicit false

/-- A line without its end. -/
def stripEnd (line : List Char) : List Char :=
  if line.dropLast.getLast? = some '\r' then line.dropLast.dropLast else line.dropLast

/-- What the lines of a text say. -/
def lineTexts (text : List Char) : List (List Char) := (readLines text).map stripEnd

/-- The last line is whole. -/
def Whole (text : List Char) : Prop := text = [] ∨ text.getLast? = some '\n'

theorem Whole.rest {line rest : List Char} (whole : Whole (line ++ '\n' :: rest)) : Whole rest := by
  cases rest with
  | nil => exact .inl rfl
  | cons c rest =>
      rcases whole with empty | ended
      · simp at empty
      · rw [List.getLast?_append] at ended
        exact .inr (by simpa using ended)

/-- Then all lines are. -/
theorem readLines_ended {text : List Char} (whole : Whole text) :
    ∀ line ∈ readLines text, line.getLast? = some '\n' := by
  induction text using line_induction with
  | nil => exact nofun
  | last line some_ plain =>
      rcases whole with empty | ended
      · exact absurd empty some_
      · exact absurd (List.mem_of_getLast? ended) plain
  | cons line rest plain ih =>
      rw [readLines_cons plain, List.forall_mem_cons]
      exact ⟨by simp, ih whole.rest⟩

/-- A line that holds nothing but its end. -/
theorem stripEnd_eq_nil {line : List Char} (ended : line.getLast? = some '\n') :
    stripEnd line = [] ↔ line = ['\r', '\n'] ∨ line = ['\n'] := by
  obtain ⟨body, rfl⟩ := List.getLast?_eq_some_iff.1 ended
  rw [stripEnd, List.dropLast_concat]
  by_cases both : body.getLast? = some '\r'
  · obtain ⟨text, rfl⟩ := List.getLast?_eq_some_iff.1 both
    rw [if_pos both, List.dropLast_concat]
    constructor
    · rintro rfl
      exact .inl rfl
    · rintro (is | is)
      · simpa using congrArg List.length is
      · have length := congrArg List.length is
        simp at length
  · rw [if_neg both]
    constructor
    · rintro rfl
      exact .inr rfl
    · rintro (is | is)
      · have body_ : body = ['\r'] := List.append_cancel_right (is : _ = ['\r'] ++ ['\n'])
        exact absurd (by rw [body_]; rfl) both
      · exact List.append_cancel_right (is : _ = [] ++ ['\n'])

theorem flatten_readLines (text : List Char) : (readLines text).flatten = text := by
  induction text using line_induction with
  | nil => rfl
  | last line some_ whole => rw [readLines_last some_ whole, List.flatten_singleton]
  | cons line rest whole ih => rw [readLines_cons whole, List.flatten_cons, ih]; simp

/-- The first lines of a text are its lines again when read alone. -/
theorem readLines_flatten {text : List Char} {front : List (List Char)}
    (begins : front <+: readLines text) : readLines front.flatten = front := by
  induction text using line_induction generalizing front with
  | nil =>
      rw [List.prefix_nil.1 begins]
      rfl
  | last line some_ whole =>
      rw [readLines_last some_ whole] at begins
      cases front with
      | nil => rfl
      | cons first front =>
          obtain ⟨rfl, nothing⟩ := List.cons_prefix_cons.1 begins
          rw [List.prefix_nil.1 nothing, List.flatten_singleton, readLines_last some_ whole]
  | cons line rest whole ih =>
      rw [readLines_cons whole] at begins
      cases front with
      | nil => rfl
      | cons first front =>
          obtain ⟨rfl, later⟩ := List.cons_prefix_cons.1 begins
          rw [List.flatten_cons, List.append_assoc, List.singleton_append, readLines_cons whole,
            ih later]

/-! ## Pieces -/

theorem splitCrlf_ne_nil (text : List Char) : splitCrlf text ≠ [] := by
  fun_induction splitCrlf text <;> simp_all

/-- Cut after a line that ends in both characters. -/
theorem splitCrlf_crlf {line : List Char} (plain : '\n' ∉ line) (rest : List Char) :
    splitCrlf (line ++ '\r' :: '\n' :: rest) = line :: splitCrlf rest := by
  induction line with
  | nil => rfl
  | cons c line ih =>
      simp only [List.mem_cons, not_or] at plain
      rw [List.cons_append, splitCrlf, ih plain.2]
      rintro rest' - is
      cases line with
      | nil => cases is
      | cons d line =>
          simp only [List.mem_cons, not_or] at plain
          exact plain.2.1 (List.cons.inj is).1.symm

/-- Not cut after another line. -/
theorem splitCrlf_lf {line rest piece : List Char} {pieces : List (List Char)}
    (plain : '\n' ∉ line) (alone : line.getLast? ≠ some '\r')
    (cut : splitCrlf rest = piece :: pieces) :
    splitCrlf (line ++ '\n' :: rest) = (line ++ '\n' :: piece) :: pieces := by
  induction line with
  | nil =>
      rw [List.nil_append, splitCrlf, cut]
      · rfl
      · rintro _ ⟨⟩
  | cons c line ih =>
      simp only [List.mem_cons, not_or] at plain
      have alone' : line.getLast? ≠ some '\r' := by
        cases line with
        | nil => nofun
        | cons d line => rwa [List.getLast?_cons_cons] at alone
      rw [List.cons_append, splitCrlf, ih plain.2 alone', List.cons_append]
      rintro rest' rfl is
      cases line with
      | nil => exact alone rfl
      | cons d line =>
          simp only [List.mem_cons, not_or] at plain
          exact plain.2.1 (List.cons.inj is).1.symm

/-- **The lines of the pieces are the lines of the text**, and nothing follows the last end. -/
theorem lineTexts_append_nil {text : List Char} (whole : Whole text) :
    lineTexts text ++ [[]] = (splitCrlf text).flatMap (List.splitOn '\n') := by
  induction text using line_induction with
  | nil => rfl
  | last line some_ plain =>
      rcases whole with empty | ended
      · exact absurd empty some_
      · exact absurd (List.mem_of_getLast? ended) plain
  | cons line rest plain ih =>
      have lines := ih whole.rest
      rw [lineTexts] at lines ⊢
      rw [readLines_cons plain, List.map_cons, List.cons_append, lines, stripEnd,
        List.dropLast_concat]
      by_cases both : line.getLast? = some '\r'
      · obtain ⟨body, rfl⟩ := List.getLast?_eq_some_iff.1 both
        have plain' : '\n' ∉ body := fun member => plain (List.mem_append_left _ member)
        rw [if_pos both, List.dropLast_concat, List.append_assoc, List.singleton_append,
          splitCrlf_crlf plain', List.flatMap_cons, List.splitOn_eq_singleton plain']
        rfl
      · rw [if_neg both]
        cases cut : splitCrlf rest with
        | nil => exact absurd cut (splitCrlf_ne_nil rest)
        | cons piece pieces =>
            rw [splitCrlf_lf plain both cut, List.flatMap_cons, List.flatMap_cons,
              List.splitOn_append_cons_self_of_not_mem plain]
            rfl

/-! ## Around a line -/

theorem white_newline : isWhitespace '\n' = true := by decide

/-- Lines of white space make a text of white space, and no others do. -/
theorem white_intercalate (lines : List (List Char)) :
    White (List.intercalate ['\n'] lines) ↔ ∀ l ∈ lines, White l := by
  induction lines with
  | nil => exact iff_of_true white_nil nofun
  | cons line lines ih =>
      rw [List.forall_mem_cons]
      cases lines with
      | nil => rw [List.intercalate_singleton, and_iff_left nofun]
      | cons next lines =>
          rw [List.intercalate_cons_cons, white_append, white_append, ih, white_cons,
            and_iff_left white_nil, and_iff_left white_newline]

/-- What stands before one of the lines of a text is white space if the lines before it are, and
so after it. -/
theorem intercalate_around (before : List (List Char)) (line : List Char)
    (after : List (List Char)) :
    ∃ front back, List.intercalate ['\n'] (before ++ line :: after) = front ++ line ++ back ∧
      (White front ↔ ∀ l ∈ before, White l) ∧ (White back ↔ ∀ l ∈ after, White l) := by
  induction before with
  | nil =>
      cases after with
      | nil => exact ⟨[], [], by simp, iff_of_true white_nil nofun, iff_of_true white_nil nofun⟩
      | cons next after =>
          refine ⟨[], '\n' :: List.intercalate ['\n'] (next :: after), ?_,
            iff_of_true white_nil nofun, ?_⟩
          · rw [List.nil_append, List.intercalate_cons_cons]
            simp
          · rw [white_cons, and_iff_right white_newline, white_intercalate]
  | cons first before ih =>
      obtain ⟨front, back, is, whiteFront, whiteBack⟩ := ih
      refine ⟨first ++ '\n' :: front, back, ?_, ?_, whiteBack⟩
      · rw [List.cons_append, List.intercalate_cons_of_ne_nil (by simp), is]
        simp
      · rw [white_append, white_cons, and_iff_right white_newline, whiteFront,
          List.forall_mem_cons]

end ComputerMoney.Theory.Text
