/-
# Theory.Bech32 -- a human-readable prefix and five-bit symbols, as checked text

The text is the prefix, a `1`, one character for each symbol, and six characters of
checksum (the bech32m constant).  `read` takes the last `1` as the separator, refuses
mixed case and a wrong checksum, and gives the prefix as it stands.  Reading back what
was written is the identity (`read_write`).
-/
import Mathlib.Data.List.Basic
import ComputerMoney.Theory.Text

namespace ComputerMoney.Theory.Bech32

set_option autoImplicit false

open Text

def charset : List Char := "qpzry9x8gf2tvdw0s3jn54khce6mua7l".toList

def symbolChar (symbol : ℕ) : Char := charset.getD symbol 'q'

def charSymbol? (c : Char) : Option ℕ := charset.findIdx? (· == c)

/-! ## The checksum -/

/-- The generator's five constants, for the five bits shifted out. -/
def generator : List ℕ := [0x3b6a57b2, 0x26508e6d, 0x1ea119fa, 0x3d4233dd, 0x2a1462b3]

def polymodStep (residue value : ℕ) : ℕ :=
  let top := residue >>> 25
  let shifted := ((residue &&& 0x1ffffff) <<< 5) ^^^ value
  (generator.zipIdx.filter fun (_, bit) => top.testBit bit).foldl (fun acc (g, _) => acc ^^^ g) shifted

def polymod (values : List ℕ) : ℕ := values.foldl polymodStep 1

def hrpExpand (hrp : List Char) : List ℕ :=
  hrp.map (fun c => c.toNat >>> 5) ++ 0 :: hrp.map fun c => c.toNat &&& 31

/-- The six symbols that bring the residue to the bech32m constant. -/
def checksum (hrp : List Char) (symbols : List ℕ) : List ℕ :=
  let residue := polymod (hrpExpand hrp ++ symbols ++ [0, 0, 0, 0, 0, 0]) ^^^ 0x2bc830a3
  [residue >>> 25 &&& 31, residue >>> 20 &&& 31, residue >>> 15 &&& 31, residue >>> 10 &&& 31,
    residue >>> 5 &&& 31, residue &&& 31]

/-! ## Writing and reading -/

def write (hrp : List Char) (symbols : List ℕ) : List Char :=
  hrp ++ '1' :: (symbols ++ checksum hrp symbols).map symbolChar

def isUpper (c : Char) : Bool := 'A' ≤ c && c ≤ 'Z'

def isLower (c : Char) : Bool := 'a' ≤ c && c ≤ 'z'

/-- What stands before the last `mark`, and after it. -/
def splitLast (mark : Char) (text : List Char) : Option (List Char × List Char) :=
  (splitOnce mark text.reverse).map fun parts => (parts.2.reverse, parts.1.reverse)

/-- The code length of the checksum. -/
def codeLength : ℕ := 1023

def read (text : List Char) : Option (List Char × List ℕ) := do
  let (hrp, rest) ← splitLast '1' text
  let symbols ← rest.mapM fun c => charSymbol? (asciiLower c)
  let data := symbols.take (symbols.length - 6)
  if hrp ≠ [] ∧ hrp.all (fun c => 33 ≤ c.toNat && c.toNat ≤ 126) ∧
      ¬ (text.any isUpper ∧ text.any isLower) ∧ text.length ≤ codeLength ∧
      6 ≤ symbols.length ∧ symbols.drop (symbols.length - 6) = checksum (hrp.map asciiLower) data
    then some (hrp, data) else none

/-! ## The way back -/

theorem symbolChar_facts {symbol : ℕ} (small : symbol < 32) :
    charSymbol? (asciiLower (symbolChar symbol)) = some symbol ∧ symbolChar symbol ≠ '1' ∧
      isUpper (symbolChar symbol) = false ∧ isWhitespace (symbolChar symbol) = false := by
  have all : ∀ s : Fin 32, charSymbol? (asciiLower (symbolChar s)) = some s.val ∧
      symbolChar s ≠ '1' ∧ isUpper (symbolChar s) = false ∧
        isWhitespace (symbolChar s) = false := by
    decide
  exact all ⟨symbol, small⟩

theorem checksum_small (hrp : List Char) (symbols : List ℕ) :
    ∀ s ∈ checksum hrp symbols, s < 32 := by
  have five : ∀ n : ℕ, n &&& 31 < 2 ^ 5 := fun n => Nat.and_lt_two_pow n (by decide)
  intro s member
  simp only [checksum, List.mem_cons, List.not_mem_nil, or_false] at member
  rcases member with rfl | rfl | rfl | rfl | rfl | rfl <;> exact five _

theorem splitOnce_first {mark : Char} {before : List Char} (after : List Char)
    (clear : mark ∉ before) : splitOnce mark (before ++ mark :: after) = some (before, after) := by
  induction before with
  | nil => simp [splitOnce]
  | cons c before ih =>
      rw [List.mem_cons, not_or] at clear
      rw [List.cons_append, splitOnce, if_neg (Ne.symm clear.1), ih clear.2]
      rfl

theorem splitLast_last {mark : Char} (before : List Char) {after : List Char}
    (clear : mark ∉ after) : splitLast mark (before ++ mark :: after) = some (before, after) := by
  have turned : (before ++ mark :: after).reverse = after.reverse ++ mark :: before.reverse := by
    simp
  rw [splitLast, turned, splitOnce_first _ (by simpa using clear)]
  simp

theorem mapM_symbols {symbols : List ℕ} (small : ∀ s ∈ symbols, s < 32) :
    (symbols.map symbolChar).mapM (fun c => charSymbol? (asciiLower c)) = some symbols := by
  induction symbols with
  | nil => rfl
  | cons s symbols ih =>
      rw [List.map_cons, List.mapM_cons, (symbolChar_facts (small s (by simp))).1,
        ih fun t member => small t (List.mem_cons_of_mem _ member)]
      rfl

/-- A prefix a code can have: some lower-case ASCII text. -/
structure Plain (hrp : List Char) : Prop where
  some : hrp ≠ []
  ascii : hrp.all (fun c => 33 ≤ c.toNat && c.toNat ≤ 126) = true
  lower : hrp.any isUpper = false
  fixed : hrp.map asciiLower = hrp
  solid : hrp.any isWhitespace = false

theorem code_small {hrp : List Char} {symbols : List ℕ} (small : ∀ s ∈ symbols, s < 32) :
    ∀ s ∈ symbols ++ checksum hrp symbols, s < 32 := by
  intro s member
  exact (List.mem_append.1 member).elim (small s) (checksum_small hrp symbols s)

/-- No character of a code is of a kind that neither the prefix, the separator nor the
symbols have. -/
theorem write_any {hrp : List Char} {symbols : List ℕ} {kind : Char → Bool}
    (small : ∀ s ∈ symbols, s < 32) (inHrp : hrp.any kind = false) (separator : kind '1' = false)
    (inData : ∀ s, s < 32 → kind (symbolChar s) = false) :
    (write hrp symbols).any kind = false := by
  refine List.any_eq_false.2 fun c member => ?_
  rcases List.mem_append.1 member with first | rest
  · exact List.any_eq_false.1 inHrp c first
  · rcases List.mem_cons.1 rest with rfl | data
    · simp [separator]
    · obtain ⟨s, isSymbol, rfl⟩ := List.mem_map.1 data
      simp [inData s (code_small small s isSymbol)]

/-- There is no white space in a code. -/
theorem write_solid {hrp : List Char} {symbols : List ℕ} (plain : Plain hrp)
    (small : ∀ s ∈ symbols, s < 32) : (write hrp symbols).any isWhitespace = false :=
  write_any small plain.solid (by decide) fun _ bound => (symbolChar_facts bound).2.2.2

/-- **Reading back what was written.** -/
theorem read_write {hrp : List Char} {symbols : List ℕ} (plain : Plain hrp)
    (small : ∀ s ∈ symbols, s < 32) (short : hrp.length + symbols.length + 7 ≤ codeLength) :
    read (write hrp symbols) = some (hrp, symbols) := by
  have both : ∀ s ∈ symbols ++ checksum hrp symbols, s < 32 := code_small small
  have clear : '1' ∉ (symbols ++ checksum hrp symbols).map symbolChar := by
    intro member
    obtain ⟨s, isSymbol, is⟩ := List.mem_map.1 member
    exact (symbolChar_facts (both s isSymbol)).2.1 is
  have lower : (write hrp symbols).any isUpper = false :=
    write_any small plain.lower (by decide) fun _ bound => (symbolChar_facts bound).2.2.1
  have six : (checksum hrp symbols).length = 6 := rfl
  have length : (write hrp symbols).length = hrp.length + symbols.length + 7 := by
    simp only [write, List.length_append, List.length_cons, List.length_map, six]
    omega
  have data : (symbols ++ checksum hrp symbols).length - 6 = symbols.length := by
    rw [List.length_append, six, Nat.add_sub_cancel]
  unfold read
  rw [show splitLast '1' (write hrp symbols) = _ from splitLast_last hrp clear]
  simp only [Option.bind_eq_bind, Option.bind_some, mapM_symbols both, data, List.take_left,
    List.drop_left, plain.fixed]
  refine if_pos ⟨plain.some, plain.ascii, ?_, length ▸ short, ?_, trivial⟩
  · rw [lower]
    exact fun mixed => Bool.noConfusion mixed.1
  · rw [List.length_append, six]
    omega

end ComputerMoney.Theory.Bech32
