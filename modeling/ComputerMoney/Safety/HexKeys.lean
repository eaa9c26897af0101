/-
# Safety.HexKeys -- which strings the hex key parsers accept

Three copies of one loop read 64 bytes of text, two at a time, through a general integer
parser.  It takes a plus sign for the first of two characters, so `+f` is 15; and the slices
are cut at byte offsets, so that a wide character can panic (`hexPairs_panics`).  Apart from
these, what is accepted is 64 hex digits, and nothing is lost: `key_parsers_exact`.
-/
import ComputerMoney.Kernel.Mcp

namespace ComputerMoney.Safety

set_option autoImplicit false

open Theory Kernel.Mcp Kernel.Mcp.Handler

namespace HexKeys

/-! ## What a key is -/

/-- 64 hex digits, in either case. -/
def Grammar (text : List Char) : Prop :=
  text.length = 64 ∧ ∀ c ∈ text, (Hex.digitValue? c).isSome

/-- The outcome of parsing `text`: a value exactly if it is a key, and then the value it is
written from; an error otherwise, and never a panic. -/
structure Exact (outcome : Handler (List UInt8)) (text : List Char) : Prop where
  accepts : (∃ bytes, outcome.run = some (.ok bytes)) ↔ Grammar text
  reads : ∀ bytes, outcome.run = some (.ok bytes) → Hex.hexLower bytes = text.map Text.asciiLower
  returns : ¬ Panics outcome

theorem grammar_iff {text : List Char} :
    Grammar text ↔ Text.byteLength text = 64 ∧ (Hex.fromHex text).isSome := by
  constructor
  · intro ⟨length, digits⟩
    obtain ⟨bytes, read, -⟩ := Hex.fromHex_of_digits 32 length digits
    exact ⟨(Hex.byteLength_of_digits digits).trans length, read ▸ rfl⟩
  · intro ⟨size, read⟩
    obtain ⟨bytes, is⟩ := Option.isSome_iff_exists.1 read
    obtain ⟨-, digits⟩ := Hex.digits_of_fromHex is
    exact ⟨(Hex.byteLength_of_digits digits).symm.trans size, digits⟩

/-! ## What the loop reads -/

/-- The bytes of the pairs, if every pair is a number to the integer parser. -/
def radixPairs : List Char → Option (List UInt8)
  | [] => some []
  | [_] => none
  | c :: d :: rest => (radixPair c d).bind fun byte => (radixPairs rest).map (byte :: ·)

/-- Readable pairs to the end, some of which begin with a plus sign. -/
def Signed (text : List Char) : Prop :=
  ∃ pairs : List (Char × Char), text = pairs.flatMap (fun pair => [pair.1, pair.2]) ∧
    (∀ pair ∈ pairs, (radixPair pair.1 pair.2).isSome) ∧ ∃ pair ∈ pairs, pair.1 = '+'

/-- Pairs that are all numbers are read. -/
theorem isSome_radixPairs {pairs : List (Char × Char)}
    (readable : ∀ pair ∈ pairs, (radixPair pair.1 pair.2).isSome) :
    (radixPairs (pairs.flatMap fun pair => [pair.1, pair.2])).isSome := by
  induction pairs with
  | nil => rfl
  | cons pair pairs ih =>
      have ⟨byte, first⟩ := Option.isSome_iff_exists.1 (readable pair (List.mem_cons_self ..))
      have ⟨more, others⟩ := Option.isSome_iff_exists.1
        (ih fun pair member => readable pair (List.mem_cons_of_mem _ member))
      simp only [List.flatMap_cons, List.cons_append, List.nil_append, radixPairs, first,
        Option.bind_some, others, Option.map_some, Option.isSome_some]

/-- What is read is pairs that are all numbers. -/
theorem pairs_of_radixPairs {text : List Char} {bytes : List UInt8}
    (read : radixPairs text = some bytes) :
    ∃ pairs : List (Char × Char), text = pairs.flatMap (fun pair => [pair.1, pair.2]) ∧
      ∀ pair ∈ pairs, (radixPair pair.1 pair.2).isSome := by
  fun_induction radixPairs text generalizing bytes with
  | case1 => exact ⟨[], rfl, nofun⟩
  | case2 => cases read
  | case3 c d rest ih =>
      obtain ⟨byte, first, others⟩ := Option.bind_eq_some_iff.1 read
      obtain ⟨more, is, -⟩ := Option.map_eq_some_iff.1 others
      obtain ⟨pairs, rfl, readable⟩ := ih is
      refine ⟨(c, d) :: pairs, rfl, fun pair member => ?_⟩
      rcases List.mem_cons.1 member with rfl | member
      · exact Option.isSome_of_eq_some first
      · exact readable pair member

theorem plus_no_digit : (Hex.digitValue? '+').isSome = false := by decide

/-- The second character of a readable pair is a digit. -/
theorem digit_of_radixPair {c d : Char} (read : (radixPair c d).isSome) :
    (Hex.digitValue? d).isSome := by
  unfold radixPair at read
  split at read
  · rwa [Option.isSome_map] at read
  · obtain ⟨byte, is⟩ := Option.isSome_iff_exists.1 read
    obtain ⟨high, -, rest⟩ := Option.bind_eq_some_iff.1 is
    obtain ⟨low, digit, -⟩ := Option.map_eq_some_iff.1 rest
    exact Option.isSome_of_eq_some digit

theorem signed_iff {text : List Char} :
    Signed text ↔ (radixPairs text).isSome ∧ '+' ∈ text := by
  constructor
  · intro ⟨pairs, is, readable, pair, member, plus⟩
    subst is
    exact ⟨isSome_radixPairs readable,
      List.mem_flatMap.2 ⟨pair, member, plus ▸ List.mem_cons_self ..⟩⟩
  · intro ⟨read, plus⟩
    obtain ⟨bytes, is⟩ := Option.isSome_iff_exists.1 read
    obtain ⟨pairs, rfl, readable⟩ := pairs_of_radixPairs is
    obtain ⟨pair, member, within⟩ := List.mem_flatMap.1 plus
    refine ⟨pairs, rfl, readable, pair, member, ?_⟩
    rcases List.mem_pair.1 within with first | second
    · exact first.symm
    · have digit := digit_of_radixPair (readable pair member)
      rw [← second, plus_no_digit] at digit
      cases digit

/-- The loop succeeds on pairs that are all numbers. -/
theorem hexPairs_ok {refusal : Kernel.Error} {text : List Char} {bytes : List UInt8} :
    (hexPairs refusal text).run = some (.ok bytes) ↔ radixPairs text = some bytes := by
  fun_induction hexPairs refusal text generalizing bytes with
  | case1 =>
      constructor
      · rintro ⟨⟩
        rfl
      · rintro ⟨⟩
        rfl
  | case2 =>
      constructor
      · rintro ⟨⟩
      · rintro ⟨⟩
  | case3 c narrow d rest narrow' byte read ih =>
      rw [radixPairs, read, Option.bind_some, Option.map_eq_some_iff, ExceptT.run_bind]
      rcases inner : (hexPairs refusal rest).run with _ | (e | more)
      · constructor
        · rintro ⟨⟩
        · rintro ⟨more, is, -⟩
          rw [← ih, inner] at is
          cases is
      · constructor
        · rintro ⟨⟩
        · rintro ⟨more, is, -⟩
          rw [← ih, inner] at is
          cases is
      · constructor
        · rintro ⟨⟩
          exact ⟨more, ih.1 inner, rfl⟩
        · rintro ⟨more', is, rfl⟩
          rw [← ih, inner] at is
          cases is
          rfl
  | case4 c narrow d rest narrow' unread =>
      rw [radixPairs, unread]
      constructor
      · rintro ⟨⟩
      · rintro ⟨⟩
  | case5 c narrow d rest wide =>
      constructor
      · rintro ⟨⟩
      · intro is
        obtain ⟨byte, read, -⟩ := Option.bind_eq_some_iff.1 is
        exact absurd (size_of_radixPair (Option.isSome_of_eq_some read)).2 wide
  | case6 c rest wide two | case7 c rest wide wider =>
      constructor
      · rintro ⟨⟩
      · intro is
        cases rest with
        | nil => cases is
        | cons d rest =>
            obtain ⟨byte, read, -⟩ := Option.bind_eq_some_iff.1 is
            exact absurd (size_of_radixPair (Option.isSome_of_eq_some read)).1 wide

/-- Without a plus sign the integer parser reads hex. -/
theorem radixPairs_unsigned {text : List Char} (unsigned : '+' ∉ text) :
    radixPairs text = Hex.fromHex text := by
  fun_induction radixPairs text with
  | case1 => rfl
  | case2 => rfl
  | case3 c d rest ih =>
      have first : c ≠ '+' := fun is => unsigned (is ▸ List.mem_cons_self ..)
      have others : '+' ∉ rest := fun member =>
        unsigned (List.mem_cons_of_mem _ (List.mem_cons_of_mem _ member))
      rw [radixPair, if_neg first, ih others, Hex.fromHex]
      rcases Hex.digitValue? c with _ | high
      · rfl
      rcases Hex.digitValue? d with _ | low
      · rfl
      rcases Hex.fromHex rest with _ | bytes <;> rfl

/-! ## The parsers -/

/-- Where 64 bytes are read as they should be: no slice ends inside a character, and no pair
begins with a plus sign in a text that is read to its end. -/
def Legible (text : List Char) : Prop :=
  Text.byteLength text = 64 → ¬ RunsAstride text ∧ ¬ Signed text

/-- A text that is not 64 bytes is no key. -/
theorem exact_throw {short : Kernel.Error} {text : List Char} (size : Text.byteLength text ≠ 64) :
    Exact (throw short) text where
  accepts := iff_of_false nofun fun grammar => size (grammar_iff.1 grammar).1
  reads := nofun
  returns := panics_throw short

theorem exact_hexPairs {refusal : Kernel.Error} {text : List Char}
    (size : Text.byteLength text = 64) :
    Exact (hexPairs refusal text) text ↔ ¬ RunsAstride text ∧ ¬ Signed text := by
  have panics : Panics (hexPairs refusal text) ↔ RunsAstride text :=
    hexPairs_panics (by rw [size])
  constructor
  · intro exact_
    refine ⟨mt panics.2 exact_.returns, fun signed => ?_⟩
    obtain ⟨read, signed⟩ := signed_iff.1 signed
    obtain ⟨bytes, is⟩ := Option.isSome_iff_exists.1 read
    obtain ⟨-, digits⟩ := exact_.accepts.1 ⟨bytes, hexPairs_ok.2 is⟩
    exact absurd (digits '+' signed) (by rw [plus_no_digit]; nofun)
  · intro ⟨calm, unsigned⟩
    have hex : ∀ bytes, radixPairs text = some bytes → Hex.fromHex text = some bytes := by
      intro bytes is
      have free : '+' ∉ text := fun member =>
        unsigned (signed_iff.2 ⟨Option.isSome_of_eq_some is, member⟩)
      rw [← radixPairs_unsigned free, is]
    constructor
    · constructor
      · intro ⟨bytes, ok⟩
        exact grammar_iff.2 ⟨size, Option.isSome_of_eq_some (hex bytes (hexPairs_ok.1 ok))⟩
      · intro grammar
        obtain ⟨bytes, is⟩ := Option.isSome_iff_exists.1 (grammar_iff.1 grammar).2
        have free : '+' ∉ text := by
          intro member
          exact absurd (grammar.2 '+' member) (by rw [plus_no_digit]; nofun)
        exact ⟨bytes, hexPairs_ok.2 ((radixPairs_unsigned free).trans is)⟩
    · intro bytes ok
      exact Hex.hexLower_fromHex (hex bytes (hexPairs_ok.1 ok))
    · exact mt panics.1 calm

/-- The three copies of the loop. -/
theorem exact_iff {short refusal : Kernel.Error} {text : List Char} :
    Exact (if Text.byteLength text ≠ 64 then throw short else hexPairs refusal text) text ↔
      Legible text := by
  by_cases size : Text.byteLength text = 64
  · rw [if_neg (not_not_intro size), exact_hexPairs size]
    exact ⟨fun legible _ => legible, fun legible => legible size⟩
  · rw [if_pos size]
    exact iff_of_true (exact_throw size) fun is => absurd is size

/-- The loop reads back what was printed. -/
theorem parse_hexLower {short refusal : Kernel.Error} {bytes : List UInt8}
    (length : bytes.length = 32) :
    (if Text.byteLength (Hex.hexLower bytes) ≠ 64 then throw short
      else hexPairs refusal (Hex.hexLower bytes) : Handler (List UInt8)).run =
        some (.ok bytes) := by
  have digits := Hex.digits_hexLower bytes
  have size : Text.byteLength (Hex.hexLower bytes) = 64 := by
    rw [Hex.byteLength_of_digits digits, Hex.length_hexLower, length]
  have free : '+' ∉ Hex.hexLower bytes := by
    intro member
    exact absurd (digits '+' member) (by rw [plus_no_digit]; nofun)
  rw [if_neg (not_not_intro size)]
  exact hexPairs_ok.2 ((radixPairs_unsigned free).trans (Hex.fromHex_hexLower bytes))

end HexKeys

open HexKeys

/-- **The parsers accept 64 hex digits and nothing else, except for wide characters and plus
signs.**  Each of the three, on every text: it is exact if and only if the text (trimmed,
for the first two) is legible; and each reads back any 32 bytes that were printed. -/
theorem key_parsers_exact (text : List Char) :
    (Exact (parseCardKey text) (Text.trim text) ↔ Legible (Text.trim text)) ∧
    (Exact (parsePublicKey text) (Text.trim text) ↔ Legible (Text.trim text)) ∧
    (Exact (decodeHex32 text) text ↔ Legible text) ∧
    ∀ bytes : List UInt8, bytes.length = 32 →
      (parseCardKey (Hex.hexLower bytes)).run = some (.ok bytes) ∧
      (parsePublicKey (Hex.hexLower bytes)).run = some (.ok bytes) ∧
      (decodeHex32 (Hex.hexLower bytes)).run = some (.ok bytes) := by
  refine ⟨exact_iff, exact_iff, exact_iff, fun bytes length => ?_⟩
  have trimmed := Text.trim_solid (Hex.solid_of_digits (Hex.digits_hexLower bytes))
  refine ⟨?_, ?_, parse_hexLower length⟩
  · rw [parseCardKey, parseKey, trimmed]
    exact parse_hexLower length
  · rw [parsePublicKey, parseKey, trimmed]
    exact parse_hexLower length

/-! ## A sign, and a wide character -/

namespace HexKeys

def signedText : List Char := (List.replicate 32 ['+', 'f']).flatten

/-- A digit, a character of two bytes, and 61 digits. -/
def wideText : List Char := '0' :: 'é' :: List.replicate 61 '0'

end HexKeys

/-- `+f` is 15 to all three; and a character that straddles a pair makes all three panic. -/
theorem signed_text_accepted :
    ((parseCardKey signedText).run = some (.ok (List.replicate 32 15)) ∧
      (parsePublicKey signedText).run = some (.ok (List.replicate 32 15)) ∧
      (decodeHex32 signedText).run = some (.ok (List.replicate 32 15)) ∧
      ¬ Exact (parseCardKey signedText) (Text.trim signedText) ∧
      ¬ Exact (parsePublicKey signedText) (Text.trim signedText) ∧
      ¬ Exact (decodeHex32 signedText) signedText) ∧
    Panics (parseCardKey wideText) ∧ Panics (parsePublicKey wideText) ∧
      Panics (decodeHex32 wideText) := by
  have card : (parseCardKey signedText).run = some (.ok (List.replicate 32 15)) := by
    decide +kernel
  have peer : (parsePublicKey signedText).run = some (.ok (List.replicate 32 15)) := by
    decide +kernel
  have tweak : (decodeHex32 signedText).run = some (.ok (List.replicate 32 15)) := by
    decide +kernel
  have sign : ∀ text : List Char, '+' ∈ text → ¬ Grammar text := by
    intro text member grammar
    have digit := grammar.2 '+' member
    rw [plus_no_digit] at digit
    cases digit
  refine ⟨⟨card, peer, tweak, fun exact_ => ?_, fun exact_ => ?_, fun exact_ => ?_⟩, ?_, ?_, ?_⟩
  · exact sign _ (by decide) (exact_.accepts.1 ⟨_, card⟩)
  · exact sign _ (by decide) (exact_.accepts.1 ⟨_, peer⟩)
  · exact sign _ (by decide) (exact_.accepts.1 ⟨_, tweak⟩)
  · show (parseCardKey wideText).run = none
    decide +kernel
  · show (parsePublicKey wideText).run = none
    decide +kernel
  · show (decodeHex32 wideText).run = none
    decide +kernel

end ComputerMoney.Safety
