/-
# Theory.Lines -- a file of lines, byte by byte

UTF-8 both ways, and the lines of a file as a buffered reader returns them: cut after
each newline, the newline and a carriage return before it dropped, a last line without
a newline returned if it is not empty.  A file made of one-line texts, each ended by a
newline, the last possibly not, reads back as those texts (`lines_cons`, `lines_last`).
-/
import ComputerMoney.Theory.Text
import Mathlib.Data.List.Basic

namespace ComputerMoney.Theory.Lines

set_option autoImplicit false

def newline : UInt8 := 10

def carriageReturn : UInt8 := 13

/-- The UTF-8 bytes of a text. -/
def bytes (text : List Char) : List UInt8 := text.flatMap String.utf8EncodeChar

/-- The text of UTF-8 bytes, if they are that. -/
def text? (data : List UInt8) : Option (List Char) :=
  data.toByteArray.utf8Decode?.map Array.toList

theorem text?_bytes (text : List Char) : text? (bytes text) = some text := by
  have encoded : (bytes text).toByteArray = text.utf8Encode := rfl
  rw [text?, encoded, List.utf8Decode?_utf8Encode]
  rfl

@[simp] theorem bytes_append (text more : List Char) :
    bytes (text ++ more) = bytes text ++ bytes more := List.flatMap_append

theorem bytes_injective {text text' : List Char} (same : bytes text = bytes text') :
    text = text' := by
  have read := text?_bytes text
  rw [same, text?_bytes] at read
  exact (Option.some.inj read).symm

theorem length_bytes (text : List Char) : (bytes text).length = Text.byteLength text := by
  induction text with
  | nil => rfl
  | cons c text ih =>
      rw [bytes, List.flatMap_cons, List.length_append, String.length_utf8EncodeChar,
        Text.byteLength_cons, ← ih]
      rfl

/-- The file cut after each newline. -/
def chunks : List UInt8 → List (List UInt8)
  | [] => []
  | b :: rest =>
      if b = newline then [b] :: chunks rest
      else
        match chunks rest with
        | chunk :: more => (b :: chunk) :: more
        | [] => [[b]]

/-- Drop the newline, and a carriage return before it. -/
def strip (chunk : List UInt8) : List UInt8 :=
  if chunk.getLast? = some newline then
    if chunk.dropLast.getLast? = some carriageReturn then chunk.dropLast.dropLast
    else chunk.dropLast
  else chunk

/-- `BufRead::lines`. -/
def lines (data : List UInt8) : List (List UInt8) := (chunks data).map strip

theorem chunks_cons {line rest : List UInt8} (whole : newline ∉ line) :
    chunks (line ++ newline :: rest) = (line ++ [newline]) :: chunks rest := by
  induction line with
  | nil => simp [chunks]
  | cons b line ih =>
      simp only [List.mem_cons, not_or] at whole
      simp only [List.cons_append, chunks, if_neg (Ne.symm whole.1), ih whole.2]

theorem chunks_last {line : List UInt8} (whole : newline ∉ line) (some_ : line ≠ []) :
    chunks line = [line] := by
  induction line with
  | nil => exact absurd rfl some_
  | cons b line ih =>
      simp only [List.mem_cons, not_or] at whole
      match line with
      | [] => simp [chunks, Ne.symm whole.1]
      | b' :: line' =>
          rw [chunks, if_neg (Ne.symm whole.1), ih whole.2 nofun]

/-- A whole line in front of a file is its first line. -/
theorem lines_cons {line rest : List UInt8} (whole : newline ∉ line)
    (plain : line.getLast? ≠ some carriageReturn) :
    lines (line ++ newline :: rest) = line :: lines rest := by
  simp [lines, chunks_cons whole, strip, plain]

/-- A text without its newline is the one line of its file. -/
theorem lines_last {line : List UInt8} (whole : newline ∉ line) (some_ : line ≠ []) :
    lines line = [line] := by
  have unended : line.getLast? ≠ some newline := fun ended => whole (List.mem_of_getLast? ended)
  simp [lines, chunks_last whole some_, strip, unended]

/-! ## One-line texts in bytes -/

theorem newline_notMem_encodeChar {c : Char} (plain : c ≠ '\n') :
    newline ∉ String.utf8EncodeChar c := by
  have code : c.val.toNat ≠ 10 := fun is => plain (Char.ext (UInt32.toNat_inj.1 is))
  have byte : ∀ n : Nat, n < 256 → n ≠ 10 → newline ≠ UInt8.ofNat n := by
    intro n small other same
    have value : 10 = n % 256 := congrArg UInt8.toNat same
    omega
  unfold String.utf8EncodeChar
  dsimp only
  -- Below 128 the byte is the code itself; every byte of a longer encoding is 128 or more.
  split
  · simp only [List.mem_singleton]
    exact byte _ (by omega) code
  · split
    · simp only [List.mem_cons, List.not_mem_nil, or_false, not_or]
      exact ⟨byte _ (by omega) (by omega), byte _ (by omega) (by omega)⟩
    · split
      · simp only [List.mem_cons, List.not_mem_nil, or_false, not_or]
        exact ⟨byte _ (by omega) (by omega), byte _ (by omega) (by omega),
          byte _ (by omega) (by omega)⟩
      · simp only [List.mem_cons, List.not_mem_nil, or_false, not_or]
        exact ⟨byte _ (by omega) (by omega), byte _ (by omega) (by omega),
          byte _ (by omega) (by omega), byte _ (by omega) (by omega)⟩

theorem newline_notMem_bytes {text : List Char} (plain : '\n' ∉ text) : newline ∉ bytes text := by
  intro broken
  obtain ⟨c, member, inside⟩ := List.mem_flatMap.1 broken
  exact newline_notMem_encodeChar (fun is => plain (is ▸ member)) inside

end ComputerMoney.Theory.Lines
