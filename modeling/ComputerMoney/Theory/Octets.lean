/-
# Theory.Octets -- big-endian fields and length-led frames

A field of `w` bytes holds a number modulo `256 ^ w` (`fromBigEndian_bigEndian`).  A frame is
a body led by its length in such a field; whatever follows it, it reads back as that body as
long as the length fits the field (`unframe_frame`), and no shorter part of it reads as a frame
(`unframe_part`).
-/
import Mathlib.Data.List.Basic
import Mathlib.Data.Nat.ModEq
import Mathlib.Tactic.Ring

namespace ComputerMoney.Theory.Octets

set_option autoImplicit false

/-- The last `w` bytes of a number, most significant first. -/
def bigEndian : ℕ → ℕ → List UInt8
  | 0, _ => []
  | w + 1, n => UInt8.ofNat (n / 256 ^ w) :: bigEndian w n

def fromBigEndian (octets : List UInt8) : ℕ :=
  octets.foldl (fun number octet => number * 256 + octet.toNat) 0

@[simp] theorem length_bigEndian (w n : ℕ) : (bigEndian w n).length = w := by
  induction w with
  | zero => rfl
  | succ w ih => rw [bigEndian, List.length_cons, ih]

theorem foldl_bigEndian (w n number : ℕ) :
    (bigEndian w n).foldl (fun number octet => number * 256 + octet.toNat) number =
      number * 256 ^ w + n % 256 ^ w := by
  induction w generalizing number with
  | zero => simp [bigEndian, Nat.mod_one]
  | succ w ih =>
      have digit : (UInt8.ofNat (n / 256 ^ w)).toNat = n / 256 ^ w % 256 := UInt8.toNat_ofNat'
      rw [bigEndian, List.foldl_cons, ih, digit, Nat.mod_pow_succ, pow_succ]
      ring

theorem fromBigEndian_bigEndian (w n : ℕ) : fromBigEndian (bigEndian w n) = n % 256 ^ w := by
  rw [fromBigEndian, foldl_bigEndian, Nat.zero_mul, Nat.zero_add]

/-- A body led by its length in `w` bytes. -/
def frame (w : ℕ) (body : List UInt8) : List UInt8 := bigEndian w body.length ++ body

/-- The body of the frame at the front, and the bytes the frame takes; nothing if it is not
whole. -/
def unframe (w : ℕ) (data : List UInt8) : Option (List UInt8 × ℕ) :=
  if data.length < w then none
  else
    let stop := w + fromBigEndian (data.take w)
    if data.length < stop then none else some ((data.take stop).drop w, stop)

@[simp] theorem length_frame (w : ℕ) (body : List UInt8) :
    (frame w body).length = w + body.length := by
  rw [frame, List.length_append, length_bigEndian]

theorem unframe_frame {w : ℕ} {body : List UInt8} (fits : body.length < 256 ^ w)
    (rest : List UInt8) : unframe w (frame w body ++ rest) = some (body, w + body.length) := by
  have field : (frame w body ++ rest).take w = bigEndian w body.length := by
    rw [frame, List.append_assoc]
    exact List.take_left' (length_bigEndian w _)
  have whole : (frame w body ++ rest).take (w + body.length) = frame w body :=
    List.take_left' (length_frame w body)
  have inner : (frame w body).drop w = body := List.drop_left' (length_bigEndian w _)
  have long : (frame w body ++ rest).length = w + body.length + rest.length := by
    rw [List.length_append, length_frame]
  unfold unframe
  rw [if_neg (by omega), field, fromBigEndian_bigEndian, Nat.mod_eq_of_lt fits]
  dsimp only
  rw [if_neg (by omega), whole, inner]

/-- No shorter part of a frame is one. -/
theorem unframe_part {w : ℕ} {body front : List UInt8} (fits : body.length < 256 ^ w)
    (part : front <+: frame w body) (short : front.length < (frame w body).length) :
    unframe w front = none := by
  rw [length_frame] at short
  unfold unframe
  by_cases field : front.length < w
  · exact if_pos field
  · have head : front.take w = bigEndian w body.length := by
      obtain ⟨rest, whole⟩ := part
      have start := congrArg (List.take w) whole
      rw [List.take_append_of_le_length (by omega), frame] at start
      rw [start]
      exact List.take_left' (length_bigEndian w _)
    rw [if_neg field, head, fromBigEndian_bigEndian, Nat.mod_eq_of_lt fits]
    exact if_pos short

end ComputerMoney.Theory.Octets
