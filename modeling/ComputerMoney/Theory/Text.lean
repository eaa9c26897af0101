/-
# Theory.Text -- the string operations the source calls, on characters

Trimming, ASCII letter case and prefixes as the standard library documents them.  A
text is the list of its characters; `String` appears only where it is converted.
-/
import Mathlib.Algebra.GroupWithZero.Nat
import Mathlib.Data.List.DropRight
import Mathlib.Data.List.Infix

namespace ComputerMoney.Theory.Text

set_option autoImplicit false

/-- Unicode `White_Space`, as `char::is_whitespace`. -/
def isWhitespace (c : Char) : Bool :=
  let n := c.toNat
  (9 ≤ n && n ≤ 13) || n == 32 || n == 0x85 || n == 0xA0 || n == 0x1680 ||
    (0x2000 ≤ n && n ≤ 0x200A) || n == 0x2028 || n == 0x2029 || n == 0x202F ||
    n == 0x205F || n == 0x3000

/-- `str::trim`. -/
def trim (text : List Char) : List Char :=
  ((text.dropWhile isWhitespace).reverse.dropWhile isWhitespace).reverse

/-- `char::to_ascii_lowercase`. -/
def asciiLower (c : Char) : Char :=
  if 'A' ≤ c ∧ c ≤ 'Z' then Char.ofNat (c.toNat + 32) else c

/-- `str::starts_with`. -/
def startsWith (text start : List Char) : Bool := start.isPrefixOf text

/-- `str::strip_prefix`. -/
def stripStart (start text : List Char) : Option (List Char) :=
  if startsWith text start then some (text.drop start.length) else none

/-- `str::contains` for a string needle. -/
def contains (text needle : List Char) : Bool := text.tails.any needle.isPrefixOf

/-- `str::len`: the bytes of the UTF-8 encoding. -/
def byteLength (text : List Char) : ℕ := (text.map fun c => c.utf8Size).sum

/-- The first word of `text.split_whitespace()`, or nothing. -/
def firstWord (text : List Char) : List Char :=
  (text.dropWhile isWhitespace).takeWhile fun c => !isWhitespace c

/-- `text.split("\r\n")`. -/
def splitCrlf : List Char → List (List Char)
  | '\r' :: '\n' :: rest => [] :: splitCrlf rest
  | c :: rest =>
      match splitCrlf rest with
      | line :: lines => (c :: line) :: lines
      | [] => [[c]]
  | [] => [[]]

/-- `text.split_once(mark)`: what stands before the first `mark`, and after it. -/
def splitOnce (mark : Char) : List Char → Option (List Char × List Char)
  | [] => none
  | c :: rest =>
      if c = mark then some ([], rest)
      else (splitOnce mark rest).map fun parts => (c :: parts.1, parts.2)

/-- What successive `read_line` calls return: each line with its newline. -/
def readLines : List Char → List (List Char)
  | [] => []
  | '\n' :: rest => ['\n'] :: readLines rest
  | c :: rest =>
      match readLines rest with
      | line :: lines => (c :: line) :: lines
      | [] => [[c]]

theorem stripStart_append (start rest : List Char) :
    stripStart start (start ++ rest) = some rest := by
  simp [stripStart, startsWith]

theorem dropWhile_solid {text : List Char} (solid : text.any isWhitespace = false) :
    text.dropWhile isWhitespace = text := by
  cases text with
  | nil => rfl
  | cons c text =>
      rw [List.any_cons, Bool.or_eq_false_iff] at solid
      exact List.dropWhile_cons_of_neg (Bool.eq_false_iff.1 solid.1)

/-- A text without white space is trimmed. -/
theorem trim_solid {text : List Char} (solid : text.any isWhitespace = false) :
    trim text = text := by
  have turned : text.reverse.any isWhitespace = false := by rwa [List.any_reverse]
  rw [trim, dropWhile_solid solid, dropWhile_solid turned, List.reverse_reverse]

theorem dropWhile_trim (text : List Char) : (trim text).dropWhile isWhitespace = trim text := by
  have front : trim text <+: text.dropWhile isWhitespace := List.rdropWhile_prefix _ _
  rw [List.dropWhile_eq_self_iff]
  intro some_
  have first := front.getElem some_
  rw [first]
  exact List.dropWhile_get_zero_not _ _ _

/-- Trimming twice is trimming once. -/
theorem trim_trim (text : List Char) : trim (trim text) = trim text := by
  have back : (trim text).rdropWhile isWhitespace = trim text := List.rdropWhile_idempotent _ _
  nth_rewrite 1 [trim]
  rw [dropWhile_trim]
  exact back

/-- A text contains what stands inside it. -/
theorem contains_of_infix {text needle : List Char} (inside : needle <:+: text) :
    contains text needle = true := by
  obtain ⟨before, after, rfl⟩ := inside
  refine List.any_eq_true.2 ⟨needle ++ after, (List.mem_tails _ _).2 ⟨before, ?_⟩, ?_⟩
  · rw [List.append_assoc]
  · exact List.isPrefixOf_iff_prefix.2 (List.prefix_append ..)

/-! ## Lines -/

/-- A text is empty, or a line without its newline, or a line in front of a text. -/
@[elab_as_elim]
theorem line_induction {P : List Char → Prop} (nil : P [])
    (last : ∀ line, line ≠ [] → '\n' ∉ line → P line)
    (cons : ∀ line rest, '\n' ∉ line → P rest → P (line ++ '\n' :: rest)) (text : List Char) :
    P text := by
  by_cases broken : '\n' ∈ text
  · obtain ⟨line, rest, is, whole⟩ := List.eq_append_cons_of_mem broken
    have shorter : rest.length < text.length := by
      rw [is, List.length_append, List.length_cons]
      omega
    rw [is]
    exact cons line rest whole (line_induction nil last cons rest)
  · by_cases empty : text = []
    · rw [empty]
      exact nil
    · exact last text empty broken
termination_by text.length

theorem readLines_cons {line : List Char} (whole : '\n' ∉ line) (rest : List Char) :
    readLines (line ++ '\n' :: rest) = (line ++ ['\n']) :: readLines rest := by
  induction line with
  | nil => rfl
  | cons c line ih =>
      simp only [List.mem_cons, not_or] at whole
      rw [List.cons_append, List.cons_append, readLines, ih whole.2]
      exact fun is => whole.1 is.symm

theorem readLines_last {line : List Char} (some_ : line ≠ []) (whole : '\n' ∉ line) :
    readLines line = [line] := by
  induction line with
  | nil => exact absurd rfl some_
  | cons c line ih =>
      simp only [List.mem_cons, not_or] at whole
      match line with
      | [] =>
          rw [readLines, readLines]
          exact fun is => whole.1 is.symm
      | d :: line =>
          rw [readLines, ih nofun whole.2]
          exact fun is => whole.1 is.symm

/-! ## Bytes -/

theorem byteLength_cons (c : Char) (text : List Char) :
    byteLength (c :: text) = c.utf8Size + byteLength text := rfl

theorem byteLength_append (text more : List Char) :
    byteLength (text ++ more) = byteLength text + byteLength more := by
  simp [byteLength]

/-- One byte a character. -/
theorem byteLength_narrow {text : List Char} (narrow : ∀ c ∈ text, c.utf8Size = 1) :
    byteLength text = text.length := by
  induction text with
  | nil => rfl
  | cons c text ih =>
      rw [byteLength_cons, narrow c (List.mem_cons_self ..), List.length_cons,
        ih fun d member => narrow d (List.mem_cons_of_mem _ member), Nat.add_comm]

/-! ## White space -/

/-- Nothing but white space. -/
def White (text : List Char) : Prop := ∀ c ∈ text, isWhitespace c = true

/-- A text without its white space. -/
def solid (text : List Char) : List Char := text.filter fun c => !isWhitespace c

@[simp] theorem solid_append (text more : List Char) :
    solid (text ++ more) = solid text ++ solid more := List.filter_append ..

theorem white_iff {text : List Char} : White text ↔ solid text = [] := by
  simp [White, solid]

@[simp] theorem white_nil : White [] := nofun

@[simp] theorem white_append {text more : List Char} :
    White (text ++ more) ↔ White text ∧ White more := List.forall_mem_append

@[simp] theorem white_cons {c : Char} {text : List Char} :
    White (c :: text) ↔ isWhitespace c = true ∧ White text := List.forall_mem_cons

theorem solid_dropWhile (text : List Char) : solid (text.dropWhile isWhitespace) = solid text := by
  induction text with
  | nil => rfl
  | cons c text ih =>
      by_cases white : isWhitespace c
      · rw [List.dropWhile_cons_of_pos white, ih]
        simp [solid, white]
      · rw [List.dropWhile_cons_of_neg white]

/-- Trimming takes white space only. -/
@[simp] theorem solid_trim (text : List Char) : solid (trim text) = solid text := by
  have turn : ∀ t : List Char, solid t.reverse = (solid t).reverse := fun t =>
    List.filter_reverse ..
  rw [trim, turn, solid_dropWhile, turn, solid_dropWhile, List.reverse_reverse]

theorem count_solid {c : Char} (visible : isWhitespace c = false) (text : List Char) :
    (solid text).count c = text.count c := List.count_filter (by simp [visible])

/-- What is no white space is trimmed nowhere. -/
theorem count_trim {c : Char} (visible : isWhitespace c = false) (text : List Char) :
    (trim text).count c = text.count c := by
  rw [← count_solid visible, solid_trim, count_solid visible]

theorem dropWhile_white {text : List Char} (white : White text) (rest : List Char) :
    (text ++ rest).dropWhile isWhitespace = rest.dropWhile isWhitespace :=
  List.dropWhile_append_of_pos white

theorem trim_white_append {text : List Char} (white : White text) (rest : List Char) :
    trim (text ++ rest) = trim rest := by
  rw [trim, dropWhile_white white, trim]

theorem trim_append_white {text : List Char} (white : White text) (rest : List Char) :
    trim (rest ++ text) = trim rest := by
  have white' : White text.reverse := fun c member => white c (List.mem_reverse.1 member)
  by_cases all : White rest
  · have nothing := dropWhile_white all []
    have nothing' := dropWhile_white white []
    rw [List.append_nil] at nothing nothing'
    rw [trim, trim, dropWhile_white all, nothing, nothing']
  · have some_ : ∃ c ∈ rest, ¬ isWhitespace c = true := by simpa [White] using all
    rw [trim, List.dropWhile_append, if_neg, List.reverse_append, dropWhile_white white', ← trim]
    intro empty
    have visible : solid (rest.dropWhile isWhitespace) = [] := by
      rw [List.isEmpty_iff.1 empty]
      rfl
    rw [solid_dropWhile] at visible
    exact all (white_iff.2 visible)

/-- Lower case is as visible. -/
theorem isWhitespace_asciiLower (c : Char) : isWhitespace (asciiLower c) = isWhitespace c := by
  unfold asciiLower
  by_cases upper : 'A' ≤ c ∧ c ≤ 'Z'
  · have all : ∀ n < 91, 65 ≤ n →
        isWhitespace (Char.ofNat (n + 32)) = isWhitespace (Char.ofNat n) := by decide
    have low : 65 ≤ c.toNat := upper.1
    have high : c.toNat ≤ 90 := upper.2
    rw [if_pos upper, all c.toNat (by omega) low, Char.ofNat_toNat]
  · rw [if_neg upper]

theorem length_solid_lower (text : List Char) :
    (solid (text.map asciiLower)).length = (solid text).length := by
  induction text with
  | nil => rfl
  | cons c text ih =>
      have same := isWhitespace_asciiLower c
      unfold solid at *
      simp only [List.map_cons, List.filter_cons, same]
      split
      · rw [List.length_cons, List.length_cons, ih]
      · exact ih

theorem firstWord_eq_nil {text : List Char} : firstWord text = [] ↔ White text := by
  induction text with
  | nil => exact iff_of_true rfl white_nil
  | cons c text ih =>
      unfold firstWord at *
      by_cases white : isWhitespace c
      · rw [List.dropWhile_cons_of_pos white, ih, white_cons, and_iff_right white]
      · rw [List.dropWhile_cons_of_neg white, List.takeWhile_cons_of_pos (by simpa using white)]
        exact iff_of_false nofun fun all => white (white_cons.1 all).1

/-- A word ends at white space at the latest. -/
theorem takeWhile_append_white (word rest : List Char) {c : Char} (white : isWhitespace c = true) :
    (word ++ c :: rest).takeWhile (fun c => !isWhitespace c) =
      word.takeWhile fun c => !isWhitespace c := by
  induction word with
  | nil => rw [List.nil_append, List.takeWhile_cons_of_neg (by simp [white])]; rfl
  | cons d word ih => rw [List.cons_append, List.takeWhile_cons, List.takeWhile_cons, ih]

/-- The first word of a text is that of its front, if there is one in it or none behind it. -/
theorem firstWord_append_iff {line rest : List Char} {c : Char} (white : isWhitespace c = true) :
    firstWord (line ++ c :: rest) = firstWord line ↔ (White line → White rest) := by
  by_cases all : White line
  · have skipped : firstWord (line ++ c :: rest) = firstWord rest := by
      rw [firstWord, dropWhile_white all, List.dropWhile_cons_of_pos white, ← firstWord]
    rw [skipped, firstWord_eq_nil.2 all, firstWord_eq_nil, imp_iff_right all]
  · have visible : line.dropWhile isWhitespace ≠ [] := by
      intro empty
      apply all
      rw [white_iff, ← solid_dropWhile, empty]
      rfl
    have kept : (line ++ c :: rest).dropWhile isWhitespace =
        line.dropWhile isWhitespace ++ c :: rest := by
      rw [List.dropWhile_append, if_neg (mt List.isEmpty_iff.1 visible)]
    have same : firstWord (line ++ c :: rest) = firstWord line := by
      rw [firstWord, kept, takeWhile_append_white _ _ white, ← firstWord]
    exact iff_of_true same fun white' => absurd white' all

/-! ## Splitting once -/

theorem splitOnce_eq_some {mark : Char} {text before after : List Char} :
    splitOnce mark text = some (before, after) ↔
      text = before ++ mark :: after ∧ mark ∉ before := by
  induction text generalizing before with
  | nil => simp [splitOnce]
  | cons c text ih =>
      rw [splitOnce]
      by_cases here : c = mark
      · rw [if_pos here]
        constructor
        · rintro ⟨⟩
          exact ⟨by rw [here]; rfl, List.not_mem_nil⟩
        · rintro ⟨is, absent⟩
          cases before with
          | nil =>
              cases is
              rfl
          | cons d before =>
              cases is
              exact absurd (List.mem_cons_self ..) (here ▸ absent)
      · rw [if_neg here, Option.map_eq_some_iff]
        constructor
        · rintro ⟨⟨before', after'⟩, split, ⟨⟩⟩
          obtain ⟨rfl, absent⟩ := ih.1 split
          exact ⟨rfl, by simp [Ne.symm here, absent]⟩
        · rintro ⟨is, absent⟩
          cases before with
          | nil =>
              cases is
              exact absurd rfl here
          | cons d before =>
              cases is
              simp only [List.mem_cons, not_or] at absent
              exact ⟨(before, after), ih.2 ⟨rfl, absent.2⟩, rfl⟩

theorem splitOnce_eq_none {mark : Char} {text : List Char} :
    splitOnce mark text = none ↔ mark ∉ text := by
  induction text with
  | nil => simp [splitOnce]
  | cons c text ih =>
      rw [splitOnce]
      by_cases here : c = mark
      · simp [here]
      · simp [here, ih, Ne.symm here]

end ComputerMoney.Theory.Text
