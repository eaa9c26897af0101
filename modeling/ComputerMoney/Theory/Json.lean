/-
# Theory.Json -- compact JSON text

What a serializer writes when it writes no spaces: strings with the mandatory escapes
and nothing else escaped, natural numbers in decimal, objects in field order.  Reading
is left to whoever reads; what matters of the text here is its shape: it is never
broken by a newline, and an object opens and closes with its braces.
-/
import Mathlib.Data.List.Basic
import ComputerMoney.Theory.Hex

namespace ComputerMoney.Theory.Json

set_option autoImplicit false

/-- One character inside a string. -/
def escape (c : Char) : List Char :=
  if c = '"' then ['\\', '"']
  else if c = '\\' then ['\\', '\\']
  else if c = '\n' then ['\\', 'n']
  else if c = '\r' then ['\\', 'r']
  else if c = '\t' then ['\\', 't']
  else if c.toNat = 8 then ['\\', 'b']
  else if c.toNat = 12 then ['\\', 'f']
  else if c.toNat < 32 then
    ['\\', 'u', '0', '0', Hex.digit (c.toNat / 16), Hex.digit (c.toNat % 16)]
  else [c]

def string (text : List Char) : List Char := '"' :: (text.flatMap escape ++ ['"'])

def number (n : Nat) : List Char := Nat.toDigits 10 n

/-- A field's value, where it is no object. -/
inductive Scalar where
  | number (n : Nat)
  | string (text : String)
  deriving DecidableEq, Repr

def Scalar.text : Scalar → List Char
  | .number n => Json.number n
  | .string text => Json.string text.toList

def field (name : String) (value : List Char) : List Char := string name.toList ++ ':' :: value

/-- Fields between commas. -/
def joined : List (List Char) → List Char
  | [] => []
  | [last] => last
  | first :: rest => first ++ ',' :: joined rest

def object (fields : List (List Char)) : List Char := '{' :: (joined fields ++ ['}'])

/-! ## No line breaks -/

/-- The text does not break the line it stands in. -/
def OneLine (text : List Char) : Prop := '\n' ∉ text

theorem OneLine.append {a b : List Char} (left : OneLine a) (right : OneLine b) :
    OneLine (a ++ b) := by
  simp only [OneLine, List.mem_append, not_or]
  exact ⟨left, right⟩

theorem OneLine.cons {c : Char} {text : List Char} (plain : c ≠ '\n') (rest : OneLine text) :
    OneLine (c :: text) := by
  simp only [OneLine, List.mem_cons, not_or]
  exact ⟨Ne.symm plain, rest⟩

theorem oneLine_escape (c : Char) : OneLine (escape c) := by
  have hex : ∀ n : Fin 16, Hex.digit n ≠ '\n' := by decide
  unfold escape
  repeat' split
  all_goals first | (unfold OneLine; decide) | skip
  · rename_i control
    have high : c.toNat / 16 < 16 := by omega
    have low : c.toNat % 16 < 16 := by omega
    have first := hex ⟨c.toNat / 16, high⟩
    have second := hex ⟨c.toNat % 16, low⟩
    exact .cons (by decide) (.cons (by decide) (.cons (by decide) (.cons (by decide)
      (.cons first (.cons second List.not_mem_nil)))))
  · exact .cons ‹_› List.not_mem_nil

theorem oneLine_string (text : List Char) : OneLine (string text) := by
  refine .cons (by decide) (.append ?_ (.cons (by decide) List.not_mem_nil))
  intro broken
  obtain ⟨c, -, inside⟩ := List.mem_flatMap.1 broken
  exact oneLine_escape c inside

theorem oneLine_number (n : Nat) : OneLine (number n) := by
  intro broken
  have digit := Nat.isDigit_of_mem_toDigits (by decide) (by decide) broken
  revert digit
  decide

theorem oneLine_scalar : ∀ value : Scalar, OneLine value.text
  | .number n => oneLine_number n
  | .string text => oneLine_string text.toList

theorem oneLine_field (name : String) {value : List Char} (plain : OneLine value) :
    OneLine (field name value) :=
  .append (oneLine_string _) (.cons (by decide) plain)

theorem oneLine_object {fields : List (List Char)} (each : ∀ f ∈ fields, OneLine f) :
    OneLine (object fields) := by
  refine .cons (by decide) (.append ?_ (.cons (by decide) List.not_mem_nil))
  induction fields with
  | nil => exact List.not_mem_nil
  | cons first rest ih =>
      have rest' := ih fun f member => each f (List.mem_cons_of_mem _ member)
      have first' := each first (List.mem_cons_self ..)
      match rest with
      | [] => exact first'
      | _ :: _ => exact .append first' (.cons (by decide) rest')

end ComputerMoney.Theory.Json
