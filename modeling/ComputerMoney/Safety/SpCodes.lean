/-
# Safety.SpCodes -- which networks a silent-payment code survives

A code names its network only by its prefix, and the two test networks share one.  Reading
a code back gives the keys on every network, and the network on mainnet and on signet; a
testnet code is read as one of signet.  So a testnet wallet refuses the codes of its own
network, and a signet wallet accepts them.
-/
import ComputerMoney.Kernel.SpCode
import ComputerMoney.Kernel.Script

namespace ComputerMoney.Safety

set_option autoImplicit false

open Theory Kernel

/-- `sp_send` gets past the code, to the ledger. -/
def AcceptsCode (host : Host) (code : String) : Prop :=
  ∀ led sats maxFeeSats, spMinSats ≤ sats →
    ∃ next, spSend host led code sats maxFeeSats = .call (.entries led) next

/-- `sp_send` ends at the code, before any call. -/
def RefusesCode (host : Host) (code : String) : Prop :=
  ∀ led sats maxFeeSats, spMinSats ≤ sats →
    ∃ error, spSend host led code sats maxFeeSats = .throw error

section Gate

variable {host : Host} {code : String} {scan spend : PublicKey} {network : Network}

theorem acceptsCode_of_decode (read : decode host code = .ok (scan, spend, network))
    (same : network = host.network) : AcceptsCode host code := by
  intro led sats maxFeeSats enough
  unfold spSend
  rw [if_neg (Nat.not_lt.2 enough), read]
  show ∃ next, (if network ≠ host.network then _ else _) = _
  rw [if_neg (not_not.2 same)]
  exact ⟨_, rfl⟩

theorem refusesCode_of_decode (read : decode host code = .ok (scan, spend, network))
    (other : network ≠ host.network) : RefusesCode host code := by
  intro led sats maxFeeSats enough
  unfold spSend
  rw [if_neg (Nat.not_lt.2 enough), read]
  show ∃ error, (if network ≠ host.network then _ else _) = _
  rw [if_pos other]
  exact ⟨_, rfl⟩

/-- No code is both accepted and refused. -/
theorem not_refusesCode (accepts : AcceptsCode host code) : ¬ RefusesCode host code := by
  intro refuses
  obtain ⟨next, asks⟩ := accepts 0 spMinSats none (Nat.le_refl _)
  obtain ⟨error, ends⟩ := refuses 0 spMinSats none (Nat.le_refl _)
  rw [asks] at ends
  cases ends

/-- The gate goes by the network the code is taken for. -/
theorem acceptsCode_iff (read : decode host code = .ok (scan, spend, network)) :
    AcceptsCode host code ↔ network = host.network := by
  refine ⟨fun accepts => ?_, acceptsCode_of_decode read⟩
  by_contra other
  exact not_refusesCode accepts (refusesCode_of_decode read other)

theorem refusesCode_iff (read : decode host code = .ok (scan, spend, network)) :
    RefusesCode host code ↔ network ≠ host.network :=
  ⟨fun refuses same => not_refusesCode (acceptsCode_of_decode read same) refuses,
    refusesCode_of_decode read⟩

end Gate

/-- **Codes and networks.**  For every pair of keys and every network, reading the code back
gives the keys and that network exactly when the network is not testnet.  And for a payer on
any network, accepting the codes of that network and refusing those of the others is what
`sp_send` does with this code exactly when its network is not testnet, or the payer is on
mainnet. -/
theorem codes_round_trip (host : Host) (text : Bech32m host) (scan spend : PublicKey)
    (isScan : host.IsKey scan) (isSpend : host.IsKey spend) (network : Network) :
    (decode host (encode text scan spend network) = .ok (scan, spend, network) ↔
      network ≠ .testnet) ∧
    ((network = host.network → AcceptsCode host (encode text scan spend network)) ∧
      (network ≠ host.network → RefusesCode host (encode text scan spend network)) ↔
        (network = .testnet → host.network = .bitcoin)) := by
  have read := decode_encode text isScan isSpend network
  constructor
  · rw [read]
    cases network <;> simp [takenFor]
  · rw [acceptsCode_iff read, refusesCode_iff read]
    generalize host.network = payer
    cases network <;> cases payer <;> simp [takenFor]

/-! ## One pair of keys, on mainnet and on testnet -/

/-- An installation with the text of the crate. -/
def codeHost (network : Network) : Host :=
  { Host.sample network .default with
    bech32m := fun text => match Bech32.read text with
      | some (hrp, symbols) => .ok (String.ofList hrp, symbols)
      | none => .error "invalid checksum" }

theorem plain_sp : Bech32.Plain "sp".toList :=
  ⟨by decide, by decide, by decide, by decide, by decide⟩

theorem plain_tsp : Bech32.Plain "tsp".toList :=
  ⟨by decide, by decide, by decide, by decide, by decide⟩

def codeText (network : Network) : Bech32m (codeHost network) where
  write hrp symbols := Bech32.write hrp.toList symbols
  reads hrp symbols known small short := by
    have back : Bech32.read (Bech32.write hrp.toList symbols) = some (hrp.toList, symbols) := by
      rcases known with rfl | rfl
      · exact Bech32.read_write plain_sp small (Nat.le_trans (Nat.add_le_add_right
          (Nat.add_le_add_left short _) 7) (by decide))
      · exact Bech32.read_write plain_tsp small (Nat.le_trans (Nat.add_le_add_right
          (Nat.add_le_add_left short _) 7) (by decide))
    simp only [codeHost, back, String.ofList_toList]
  solid hrp symbols known small := by
    rcases known with rfl | rfl
    · exact Bech32.write_solid plain_sp small
    · exact Bech32.write_solid plain_tsp small

/-- The keys of the test vectors in the source. -/
def vectorScan : PublicKey :=
  [0x02, 0x20, 0xbc, 0xfa, 0xc5, 0xb9, 0x9e, 0x04, 0xad, 0x1a, 0x06, 0xdd, 0xfb, 0x01, 0x6e, 0xe1,
    0x35, 0x82, 0x60, 0x9d, 0x60, 0xb6, 0x29, 0x1e, 0x98, 0xd0, 0x1a, 0x9b, 0xc9, 0xa1, 0x6c, 0x96,
    0xd4]

def vectorSpend : PublicKey :=
  [0x02, 0x5c, 0xc9, 0x85, 0x6d, 0x6f, 0x83, 0x75, 0x35, 0x0e, 0x12, 0x39, 0x78, 0xda, 0xac, 0x20,
    0x0c, 0x26, 0x0c, 0xb5, 0xb5, 0xae, 0x83, 0x10, 0x6c, 0xab, 0x90, 0x48, 0x4d, 0xcd, 0x8f, 0xcf,
    0x36]

example : encode (codeText .bitcoin) vectorScan vectorSpend .bitcoin =
    "sp1qqgste7k9hx0qftg6qmwlkqtwuy6cycyavzmzj85c6qdfhjdpdjtdgqjuexzk6murw56suy3e0rd2cgqvycxttddwsvgxe2usfpxumr70xc9pkqwv" := by
  decide +kernel

/-- The code of a mainnet wallet is accepted on mainnet, and read back. -/
theorem codes_round_trip_mainnet :
    decode (codeHost .bitcoin) (encode (codeText .bitcoin) vectorScan vectorSpend .bitcoin) =
      .ok (vectorScan, vectorSpend, .bitcoin) ∧
    AcceptsCode (codeHost .bitcoin) (encode (codeText .bitcoin) vectorScan vectorSpend .bitcoin) := by
  obtain ⟨back, gate⟩ := codes_round_trip (codeHost .bitcoin) (codeText .bitcoin) vectorScan
    vectorSpend ⟨rfl, rfl⟩ ⟨rfl, rfl⟩ .bitcoin
  exact ⟨back.2 nofun, (gate.2 nofun).1 rfl⟩

/-- The code of a testnet wallet is not read back as one, a payer on testnet refuses it, and
a payer on signet accepts it. -/
theorem testnet_code_refused :
    decode (codeHost .testnet) (encode (codeText .testnet) vectorScan vectorSpend .testnet) ≠
      .ok (vectorScan, vectorSpend, .testnet) ∧
    spSend (codeHost .testnet) 0 (encode (codeText .testnet) vectorScan vectorSpend .testnet) 1000
      none = .throw "silent-payment code is for Signet, wallet is on Testnet" ∧
    AcceptsCode (codeHost .signet) (encode (codeText .signet) vectorScan vectorSpend .testnet) := by
  have read := @decode_encode (codeHost .testnet) (codeText .testnet) vectorScan vectorSpend
    ⟨rfl, rfl⟩ ⟨rfl, rfl⟩ .testnet
  have elsewhere := @decode_encode (codeHost .signet) (codeText .signet) vectorScan vectorSpend
    ⟨rfl, rfl⟩ ⟨rfl, rfl⟩ .testnet
  refine ⟨?_, ?_, acceptsCode_of_decode elsewhere rfl⟩
  · rw [read]
    intro same
    cases same
  · unfold spSend
    rw [read]
    rfl

end ComputerMoney.Safety
