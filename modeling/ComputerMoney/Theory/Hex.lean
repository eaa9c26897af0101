/-
# Theory.Hex -- bytes as hexadecimal text

`hexLower` is what a `{b:02x}` loop prints; `fromHex` reads two digits of either letter
case to a byte and refuses anything else.  Reading back what was printed is the identity
(`fromHex_hexLower`).
-/
import Mathlib.Data.List.Basic
import ComputerMoney.Theory.Text

namespace ComputerMoney.Theory.Hex

set_option autoImplicit false

/-- The lowercase digit of a nibble. -/
def digit (n : Nat) : Char := if n < 10 then Char.ofNat (48 + n) else Char.ofNat (87 + n)

def digitValue? (c : Char) : Option Nat :=
  if '0' ≤ c ∧ c ≤ '9' then some (c.toNat - 48)
  else if 'a' ≤ c ∧ c ≤ 'f' then some (c.toNat - 87)
  else if 'A' ≤ c ∧ c ≤ 'F' then some (c.toNat - 55)
  else none

def hexLower : List UInt8 → List Char
  | [] => []
  | b :: bytes => digit (b.toNat / 16) :: digit (b.toNat % 16) :: hexLower bytes

def fromHex : List Char → Option (List UInt8)
  | [] => some []
  | [_] => none
  | high :: low :: rest =>
      match digitValue? high, digitValue? low, fromHex rest with
      | some h, some l, some bytes => some (UInt8.ofNat (16 * h + l) :: bytes)
      | _, _, _ => none

theorem digitValue?_digit {n : Nat} (small : n < 16) : digitValue? (digit n) = some n := by
  have all : ∀ m : Fin 16, digitValue? (digit m) = some m.val := by decide
  exact all ⟨n, small⟩

theorem fromHex_hexLower (bytes : List UInt8) : fromHex (hexLower bytes) = some bytes := by
  induction bytes with
  | nil => rfl
  | cons b bytes ih =>
      have bound : b.toNat < 256 := b.toNat_lt_size
      have high := digitValue?_digit (show b.toNat / 16 < 16 by omega)
      have low := digitValue?_digit (show b.toNat % 16 < 16 by omega)
      have whole : 16 * (b.toNat / 16) + b.toNat % 16 = b.toNat := by omega
      simp only [hexLower, fromHex, high, low, ih, whole, UInt8.ofNat_toNat]

/-- An even number of digits reads to half as many bytes. -/
theorem fromHex_of_digits : ∀ (n : Nat) {text : List Char}, text.length = 2 * n →
    (∀ c ∈ text, (digitValue? c).isSome) → ∃ bytes, fromHex text = some bytes ∧ bytes.length = n
  | 0, text, length, _ => by
      obtain rfl := List.length_eq_zero_iff.1 length
      exact ⟨[], rfl, rfl⟩
  | n + 1, [], length, _ | n + 1, [_], length, _ => by
      simp only [List.length_cons, List.length_nil] at length
      omega
  | n + 1, high :: low :: rest, length, digits => by
      obtain ⟨h, highIs⟩ := Option.isSome_iff_exists.1 (digits high (by simp))
      obtain ⟨l, lowIs⟩ := Option.isSome_iff_exists.1 (digits low (by simp))
      have shorter : rest.length = 2 * n := by
        simp only [List.length_cons] at length
        omega
      obtain ⟨bytes, read, size⟩ := fromHex_of_digits n shorter fun c member =>
        digits c (by simp [member])
      refine ⟨UInt8.ofNat (16 * h + l) :: bytes, ?_, congrArg (· + 1) size⟩
      simp only [fromHex, highIs, lowIs, read]

theorem val_le_of_digit {c : Char} (digit : (digitValue? c).isSome) : c.val ≤ 0x7f := by
  unfold digitValue? at digit
  split at digit
  · rename_i decimal
    exact Nat.le_trans decimal.2 (by decide)
  · split at digit
    · rename_i lower
      exact Nat.le_trans lower.2 (by decide)
    · split at digit
      · rename_i upper
        exact Nat.le_trans upper.2 (by decide)
      · cases digit

theorem utf8Size_of_digit {c : Char} (digit : (digitValue? c).isSome) : c.utf8Size = 1 := by
  simp [Char.utf8Size, val_le_of_digit digit]

theorem byteLength_of_digits {text : List Char} (hex : ∀ c ∈ text, (digitValue? c).isSome) :
    Text.byteLength text = text.length :=
  Text.byteLength_narrow fun c member => utf8Size_of_digit (hex c member)

theorem digit_isSome {n : Nat} (small : n < 16) : (digitValue? (digit n)).isSome := by
  rw [digitValue?_digit small]
  rfl

theorem digits_hexLower (bytes : List UInt8) :
    ∀ c ∈ hexLower bytes, (digitValue? c).isSome := by
  induction bytes with
  | nil => exact nofun
  | cons b bytes ih =>
      have bound : b.toNat < 256 := b.toNat_lt_size
      intro c member
      rcases List.mem_cons.1 member with rfl | member
      · exact digit_isSome (by omega)
      rcases List.mem_cons.1 member with rfl | member
      · exact digit_isSome (by omega)
      · exact ih c member

/-- What is printed has the lowercase digits only. -/
theorem lower_hexLower (bytes : List UInt8) :
    ∀ c ∈ hexLower bytes, (('0' ≤ c && c ≤ '9') || ('a' ≤ c && c ≤ 'f')) = true := by
  have lower : ∀ n : Fin 16,
      (('0' ≤ digit n && digit n ≤ '9') || ('a' ≤ digit n && digit n ≤ 'f')) = true := by decide
  induction bytes with
  | nil => simp [hexLower]
  | cons b bytes ih =>
      have bound : b.toNat < 256 := b.toNat_lt_size
      intro c member
      rcases List.mem_cons.1 member with rfl | member
      · exact lower ⟨b.toNat / 16, by omega⟩
      rcases List.mem_cons.1 member with rfl | member
      · exact lower ⟨b.toNat % 16, by omega⟩
      · exact ih c member

@[simp] theorem length_hexLower (bytes : List UInt8) :
    (hexLower bytes).length = 2 * bytes.length := by
  induction bytes with
  | nil => rfl
  | cons b bytes ih => simp only [hexLower, List.length_cons, ih]; omega

/-! ## What can be read -/

/-- A digit is written back in lower case, and is neither white space nor a sign. -/
theorem digit_of_value {c : Char} {v : Nat} (is : digitValue? c = some v) :
    v < 16 ∧ digit v = Text.asciiLower c ∧ Text.isWhitespace c = false ∧ c ≠ '+' := by
  have small : c.toNat < 128 := Nat.lt_succ_of_le (val_le_of_digit (is ▸ rfl))
  have all : ∀ n : Fin 128, ∀ v ∈ digitValue? (Char.ofNat n), v < 16 ∧
      digit v = Text.asciiLower (Char.ofNat n) ∧ Text.isWhitespace (Char.ofNat n) = false ∧
        Char.ofNat n ≠ '+' := by decide +kernel
  have this := all ⟨c.toNat, small⟩ v
  rw [show ((⟨c.toNat, small⟩ : Fin 128) : Nat) = c.toNat from rfl, Char.ofNat_toNat] at this
  exact this is

/-- What is read is written back in lower case. -/
theorem hexLower_fromHex {text : List Char} {bytes : List UInt8}
    (read : fromHex text = some bytes) :
    hexLower bytes = text.map Text.asciiLower := by
  fun_induction fromHex text generalizing bytes with
  | case1 =>
      cases read
      rfl
  | case2 => cases read
  | case3 high low rest h l more inner lowIs highIs ih =>
      cases read
      obtain ⟨hSmall, hIs, -⟩ := digit_of_value highIs
      obtain ⟨lSmall, lIs, -⟩ := digit_of_value lowIs
      have value : (UInt8.ofNat (16 * h + l)).toNat = 16 * h + l := by
        rw [UInt8.toNat_ofNat']
        omega
      have upper : (16 * h + l) / 16 = h := by omega
      have lower : (16 * h + l) % 16 = l := by omega
      simp only [hexLower, value, upper, lower, hIs, lIs, ih inner, List.map_cons]
  | case4 => cases read

/-- What is read is digits, two for each byte. -/
theorem digits_of_fromHex {text : List Char} {bytes : List UInt8}
    (read : fromHex text = some bytes) :
    text.length = 2 * bytes.length ∧ ∀ c ∈ text, (digitValue? c).isSome := by
  fun_induction fromHex text generalizing bytes with
  | case1 =>
      cases read
      exact ⟨rfl, nofun⟩
  | case2 => cases read
  | case3 high low rest h l more inner lowIs highIs ih =>
      cases read
      obtain ⟨length, digits⟩ := ih inner
      refine ⟨by simp only [List.length_cons]; omega, fun c member => ?_⟩
      rcases List.mem_cons.1 member with rfl | member
      · rw [highIs]
        rfl
      rcases List.mem_cons.1 member with rfl | member
      · rw [lowIs]
        rfl
      · exact digits c member
  | case4 => cases read

theorem solid_of_digits {text : List Char} (digits : ∀ c ∈ text, (digitValue? c).isSome) :
    text.any Text.isWhitespace = false := by
  rw [List.any_eq_false]
  intro c member
  obtain ⟨v, is⟩ := Option.isSome_iff_exists.1 (digits c member)
  rw [(digit_of_value is).2.2.1]
  exact Bool.false_ne_true

end ComputerMoney.Theory.Hex
