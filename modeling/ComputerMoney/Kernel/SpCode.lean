/-
# Kernel.SpCode -- silent-payment codes, written and read back

`encode` is the other half of `decode`: the two keys as 66 bytes, regrouped into symbols
behind a version symbol, under a prefix that names the network.  The `bech32` crate's
text is a parameter (`Bech32m`), with the one promise that it reads back what it wrote.

The prefix of every network but mainnet is `tsp`, and `decode` takes `tsp` for signet.
-/
import ComputerMoney.Kernel.Pay
import ComputerMoney.Theory.Bech32

namespace ComputerMoney.Kernel

set_option autoImplicit false

open Theory

/-! ## Bytes to symbols -/

def byteBits (byte : UInt8) : List ℕ :=
  let n := byte.toNat
  [n / 128 % 2, n / 64 % 2, n / 32 % 2, n / 16 % 2, n / 8 % 2, n / 4 % 2, n / 2 % 2, n % 2]

/-- Symbols from a bit string, high bit first; the last one is filled up with zeros. -/
def symbolsOfBits : List ℕ → List ℕ
  | a :: b :: c :: d :: e :: rest => (16 * a + 8 * b + 4 * c + 2 * d + e) :: symbolsOfBits rest
  | [a, b, c, d] => [16 * a + 8 * b + 4 * c + 2 * d]
  | [a, b, c] => [16 * a + 8 * b + 4 * c]
  | [a, b] => [16 * a + 8 * b]
  | [a] => [16 * a]
  | [] => []

/-- `bytes_to_fes`. -/
def bytesToFes (bytes : List UInt8) : List ℕ := symbolsOfBits (bytes.flatMap byteBits)

section Regroup

theorem byteBits_binary (bytes : List UInt8) : ∀ bit ∈ bytes.flatMap byteBits, bit ≤ 1 := by
  intro bit member
  obtain ⟨byte, -, inByte⟩ := List.mem_flatMap.1 member
  simp only [byteBits, List.mem_cons, List.not_mem_nil, or_false] at inByte
  rcases inByte with rfl | rfl | rfl | rfl | rfl | rfl | rfl | rfl <;> omega

theorem symbolBits_of_bits {a b c d e : ℕ} (ha : a ≤ 1) (hb : b ≤ 1) (hc : c ≤ 1) (hd : d ≤ 1)
    (he : e ≤ 1) : symbolBits (16 * a + 8 * b + 4 * c + 2 * d + e) = [a, b, c, d, e] := by
  simp only [symbolBits, List.cons.injEq, and_true]
  omega

/-- The bits come back, with fewer than five zeros after them. -/
theorem flatMap_symbolsOfBits (bits : List ℕ) (binary : ∀ bit ∈ bits, bit ≤ 1) :
    ∃ fill, fill.length < 5 ∧ (symbolsOfBits bits).flatMap symbolBits = bits ++ fill := by
  fun_induction symbolsOfBits bits with
  | case1 a b c d e rest ih =>
      obtain ⟨fill, short, is⟩ := ih fun bit member => binary bit (by simp [member])
      refine ⟨fill, short, ?_⟩
      rw [List.flatMap_cons, is, symbolBits_of_bits (binary a (by simp)) (binary b (by simp))
        (binary c (by simp)) (binary d (by simp)) (binary e (by simp))]
      rfl
  | case2 a b c d =>
      refine ⟨[0], by decide, ?_⟩
      have bits := symbolBits_of_bits (binary a (by simp)) (binary b (by simp))
        (binary c (by simp)) (binary d (by simp)) (Nat.zero_le 1)
      simpa using bits
  | case3 a b c =>
      refine ⟨[0, 0], by decide, ?_⟩
      have bits := symbolBits_of_bits (binary a (by simp)) (binary b (by simp))
        (binary c (by simp)) (Nat.zero_le 1) (Nat.zero_le 1)
      simpa using bits
  | case4 a b =>
      refine ⟨[0, 0, 0], by decide, ?_⟩
      have bits := symbolBits_of_bits (binary a (by simp)) (binary b (by simp)) (Nat.zero_le 1)
        (Nat.zero_le 1) (Nat.zero_le 1)
      simpa using bits
  | case5 a =>
      refine ⟨[0, 0, 0, 0], by decide, ?_⟩
      have bits := symbolBits_of_bits (binary a (by simp)) (Nat.zero_le 1) (Nat.zero_le 1)
        (Nat.zero_le 1) (Nat.zero_le 1)
      simpa using bits
  | case6 => exact ⟨[], by decide, rfl⟩

theorem bytesOfBits_byteBits (bytes : List UInt8) {fill : List ℕ} (short : fill.length < 8) :
    bytesOfBits (bytes.flatMap byteBits ++ fill) = bytes := by
  induction bytes with
  | nil =>
      match fill, short with
      | [], _ | [_], _ | [_, _], _ | [_, _, _], _ | [_, _, _, _], _ | [_, _, _, _, _], _
      | [_, _, _, _, _, _], _ | [_, _, _, _, _, _, _], _ => rfl
  | cons byte bytes ih =>
      have bound : byte.toNat < 256 := byte.toNat_lt_size
      have value : 128 * (byte.toNat / 128 % 2) + 64 * (byte.toNat / 64 % 2) +
          32 * (byte.toNat / 32 % 2) + 16 * (byte.toNat / 16 % 2) + 8 * (byte.toNat / 8 % 2) +
          4 * (byte.toNat / 4 % 2) + 2 * (byte.toNat / 2 % 2) + byte.toNat % 2 = byte.toNat := by
        omega
      rw [List.flatMap_cons, byteBits]
      simp only [List.cons_append, List.nil_append, bytesOfBits, value, UInt8.ofNat_toNat, ih]

/-- **Regrouping and back is the identity.** -/
theorem fesToBytes_bytesToFes (bytes : List UInt8) : fesToBytes (bytesToFes bytes) = bytes := by
  obtain ⟨fill, short, is⟩ := flatMap_symbolsOfBits _ (byteBits_binary bytes)
  rw [fesToBytes, bytesToFes, is]
  exact bytesOfBits_byteBits bytes (by omega)

theorem symbolsOfBits_small (bits : List ℕ) (binary : ∀ bit ∈ bits, bit ≤ 1) :
    ∀ s ∈ symbolsOfBits bits, s < 32 := by
  fun_induction symbolsOfBits bits with
  | case1 a b c d e rest ih =>
      have ha := binary a (by simp)
      have hb := binary b (by simp)
      have hc := binary c (by simp)
      have hd := binary d (by simp)
      have he := binary e (by simp)
      intro s member
      rcases List.mem_cons.1 member with rfl | later
      · omega
      · exact ih (fun bit inRest => binary bit (by simp [inRest])) s later
  | _ => simp_all <;> omega

theorem length_byteBits (bytes : List UInt8) :
    (bytes.flatMap byteBits).length = 8 * bytes.length := by
  induction bytes with
  | nil => rfl
  | cons byte bytes ih =>
      rw [List.flatMap_cons, List.length_append, ih, List.length_cons]
      simp only [byteBits, List.length_cons, List.length_nil]
      omega

theorem length_symbolsOfBits (bits : List ℕ) :
    (symbolsOfBits bits).length = (bits.length + 4) / 5 := by
  fun_induction symbolsOfBits bits with
  | case1 a b c d e rest ih =>
      simp only [List.length_cons, ih]
      omega
  | _ => simp

end Regroup

/-! ## Codes -/

/-- The text of the `bech32` crate: what it writes for a prefix and its symbols has no white
space, and is read back. -/
structure Bech32m (host : Host) where
  write : String → List ℕ → List Char
  reads : ∀ hrp symbols, hrp = "sp" ∨ hrp = "tsp" → (∀ s ∈ symbols, s < 32) →
    symbols.length ≤ 107 → host.bech32m (write hrp symbols) = .ok (hrp, symbols)
  solid : ∀ hrp symbols, hrp = "sp" ∨ hrp = "tsp" → (∀ s ∈ symbols, s < 32) →
    (write hrp symbols).any Text.isWhitespace = false

/-- `hrp_str`. -/
def hrpStr (network : Network) : String := if network = .bitcoin then "sp" else "tsp"

/-- `sp::encode`: version 0, then the keys. -/
def encode {host : Host} (text : Bech32m host) (scan spend : PublicKey) (network : Network) :
    String :=
  String.ofList (text.write (hrpStr network) (0 :: bytesToFes (scan ++ spend)))

/-- A compressed key, which `PublicKey::from_slice` reads from its own bytes. -/
structure Host.IsKey (host : Host) (key : PublicKey) : Prop where
  length : key.length = 33
  reads : host.pubkeyFromSlice key = .ok key

/-- The network a code of `network` is taken for. -/
def takenFor (network : Network) : Network := if network = .bitcoin then .bitcoin else .signet

/-- **Reading a code back**: the keys are the keys that were written, and the network is the
one the prefix stands for. -/
theorem decode_encode {host : Host} (text : Bech32m host) {scan spend : PublicKey}
    (isScan : host.IsKey scan) (isSpend : host.IsKey spend) (network : Network) :
    decode host (encode text scan spend network) = .ok (scan, spend, takenFor network) := by
  have hrp : hrpStr network = "sp" ∨ hrpStr network = "tsp" := by
    unfold hrpStr
    split
    · exact .inl rfl
    · exact .inr rfl
  have bytes : (scan ++ spend).length = 66 := by
    rw [List.length_append, isScan.length, isSpend.length]
  have small : ∀ s ∈ 0 :: bytesToFes (scan ++ spend), s < 32 := by
    intro s member
    rcases List.mem_cons.1 member with rfl | later
    · decide
    · exact symbolsOfBits_small _ (byteBits_binary _) s later
  have bits : ((scan ++ spend).flatMap byteBits).length = 528 := by
    rw [length_byteBits, bytes]
  have short : (0 :: bytesToFes (scan ++ spend)).length ≤ 107 := by
    have symbols := length_symbolsOfBits ((scan ++ spend).flatMap byteBits)
    rw [bits] at symbols
    rw [List.length_cons, bytesToFes]
    omega
  have prefixed : hrpNetwork (hrpStr network) = .ok (takenFor network) := by
    unfold hrpStr takenFor
    split <;> rfl
  unfold decode encode
  rw [String.toList_ofList, Text.trim_solid (text.solid _ _ hrp small),
    text.reads _ _ hrp small short]
  simp only [prefixed, fesToBytes_bytesToFes, bytes, List.take_left' isScan.length,
    List.drop_left' isScan.length, isScan.reads, isSpend.reads]
  rfl

end ComputerMoney.Kernel
