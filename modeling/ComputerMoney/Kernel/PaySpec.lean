/-
# Kernel.PaySpec -- what the builders and the gates promise their callers

One rule per function, in the form a caller applies under `wp`: what is left to prove
when the function returns, and when it fails.  The rules hold under any assumption on
the answers and any guarantee that the function's own calls meet, so each result about
the send paths brings its own assumption and guarantee and never opens a builder again.

`Built` is the whole effect of a build that returns: the mainnet guard passed, the
wallet finished a request for exactly this amount, the fee is within the cap, and the
world differs only in the record of what was signed.
-/
import ComputerMoney.Kernel.Net

namespace ComputerMoney.Kernel

set_option autoImplicit false

open Theory Theory.Program

/-- The calls that neither sign, record nor broadcast. -/
def Op.prepares : Op → Prop
  | .openLedger | .entries _ | .nowUnix | .loadPolicy | .syncWallet | .finishPsbt _
  | .connect _ _ | .wireSend _ | .httpGet _ _ => True
  | _ => False

/-- What a build that returned `tx` has done to `w`. -/
structure Built (host : Host) (assume : Guarantee sig World) (sats : ℕ) (maxFeeSats : Option ℕ)
    (w : World) (tx : Tx) (w' : World) : Prop where
  capped : ensureMainnetCapped host.network host.policy = .ok ()
  finished : ∃ request psbt, BuildRequest.sats request = sats ∧
    assume w (.finishPsbt request) (.ok psbt) ∧ tx = ⟨psbt.txid, sats, psbt.fee, psbt.inputs⟩
  fee : ∀ cap, maxFeeSats = some cap → tx.fee ≤ cap
  world : w' = { w with signed := tx :: w.signed }

/-- A build fails, or returns what `Built` says. -/
def BuildPost (host : Host) (assume : Guarantee sig World) (sats : ℕ) (maxFeeSats : Option ℕ)
    (w : World) : Except Error Tx → World → Prop
  | .ok tx, w' => Built host assume sats maxFeeSats w tx w'
  | .error _, _ => True

theorem Built.sats_eq {host : Host} {assume : Guarantee sig World} {sats : ℕ}
    {maxFeeSats : Option ℕ} {w w' : World} {tx : Tx}
    (built : Built host assume sats maxFeeSats w tx w') : tx.sats = sats := by
  obtain ⟨_, _, _, _, rfl⟩ := built.finished
  rfl

/-- A guarantee that a send path meets until it records: it asks nothing of the calls that
prepare, and of the signature no more than a fee within the cap. -/
structure PermitsBuild (G : Guarantee sig World) (maxFeeSats : Option ℕ) : Prop where
  prepares : ∀ w (op : Op) (answer : op.Ans), op.prepares → G w op answer
  signs : ∀ w tx (answer : (Op.sign tx).Ans),
    (∀ cap, maxFeeSats = some cap → tx.fee ≤ cap) → G w (.sign tx) answer

section Gates

variable {I : Interp sig World} {G : Guarantee sig World} {w : World}
  {Q : Except Error Unit → World → Prop}

theorem wp_gate {verdict : Except PolicyError Unit} (refused : ∀ e, Q (.error e) w)
    (passed : verdict = .ok () → Q (.ok ()) w) : wp I G Q (gate verdict) w := by
  match verdict with
  | .ok () => exact passed rfl
  | .error refusal => exact refused _

theorem wp_feeCap {fee : ℕ} {maxFeeSats : Option ℕ} (refused : ∀ e, Q (.error e) w)
    (passed : (∀ cap, maxFeeSats = some cap → fee ≤ cap) → Q (.ok ()) w) :
    wp I G Q (feeCap fee maxFeeSats) w := by
  match maxFeeSats with
  | none => exact passed nofun
  | some cap =>
      simp only [feeCap]
      split
      · exact refused _
      · rename_i under
        exact passed fun cap' same => by cases same; omega

end Gates

section Builders

variable {host : Host} {assume : Guarantee sig World} {G : Guarantee sig World} {w : World}
  {maxFeeSats : Option ℕ} (permits : PermitsBuild G maxFeeSats)
include permits

theorem wp_loadPolicy {Q : Except Error Policy → World → Prop} (failed : ∀ e, Q (.error e) w)
    (loaded : Q (.ok host.policy) w) :
    wp ((interp host).restrict assume) G Q loadPolicy w := by
  rintro (e | policy) ⟨allowed, -⟩
  · exact ⟨permits.prepares _ _ _ trivial, failed e⟩
  · obtain rfl : policy = host.policy := allowed
    exact ⟨permits.prepares _ _ _ trivial, loaded⟩

theorem wp_mainnetGuard {Q : Except Error Unit → World → Prop} (failed : ∀ e, Q (.error e) w)
    (passed : ensureMainnetCapped host.network host.policy = .ok () → Q (.ok ()) w) :
    wp ((interp host).restrict assume) G Q (mainnetGuard host) w :=
  wp_bind.2 (wp_loadPolicy permits failed (wp_gate failed passed))

theorem wp_syncWallet {Q : Except Error Unit → World → Prop} (ended : ∀ result, Q result w) :
    wp ((interp host).restrict assume) G Q syncWallet w := by
  intro result _
  exact ⟨permits.prepares _ _ _ trivial, wp_ofExcept.2 (ended result)⟩

theorem wp_finishPsbt {Q : Except Error Psbt → World → Prop} {request : BuildRequest}
    (failed : ∀ e, Q (.error e) w)
    (finished : ∀ psbt, assume w (.finishPsbt request) (.ok psbt) → Q (.ok psbt) w) :
    wp ((interp host).restrict assume) G Q (finishPsbt request) w := by
  rintro (e | psbt) ⟨-, assumed⟩
  · exact ⟨permits.prepares _ _ _ trivial, failed e⟩
  · exact ⟨permits.prepares _ _ _ trivial, finished psbt assumed⟩

/-- The common tail of the builders: cap, sign, return. -/
theorem wp_signed {psbt : Psbt} {request : BuildRequest}
    (capped : ensureMainnetCapped host.network host.policy = .ok ())
    (assumed : assume w (.finishPsbt request) (.ok psbt)) :
    wp ((interp host).restrict assume) G (BuildPost host assume request.sats maxFeeSats w)
      (signed psbt request.sats maxFeeSats) w := by
  refine wp_bind.2 (wp_feeCap (fun _ => trivial) fun under => wp_bind.2 ?_)
  rintro (e | ⟨⟩) -
  · exact ⟨permits.signs _ _ _ under, trivial⟩
  · exact ⟨permits.signs _ _ _ under, ⟨capped, ⟨request, psbt, rfl, assumed, rfl⟩, under, rfl⟩⟩

theorem wp_buildSigned {payee : String} {sats : ℕ} :
    wp ((interp host).restrict assume) G (BuildPost host assume sats maxFeeSats w)
      (buildSigned host payee sats maxFeeSats) w := by
  refine wp_bind.2 (wp_mainnetGuard permits (fun _ => trivial) fun capped => ?_)
  refine wp_bind.2 (wp_syncWallet permits ?_)
  rintro (e | ⟨⟩)
  · trivial
  refine wp_bind.2 (wp_ofExcept.2 ?_)
  rcases host.parseAddress payee with e | recipient
  · trivial
  refine wp_bind.2 (wp_finishPsbt permits (fun _ => trivial) fun psbt assumed => ?_)
  exact wp_signed permits capped assumed

theorem wp_buildSignedToSp {scan spend : PublicKey} {sats : ℕ} {funds : List Ledger.SpUtxo} :
    wp ((interp host).restrict assume) G
      (fun result => BuildPost host assume sats maxFeeSats w (result.map Prod.fst))
      (buildSignedToSp host scan spend sats maxFeeSats funds) w := by
  refine wp_bind.2 (wp_mainnetGuard permits (fun _ => trivial) fun capped => ?_)
  refine wp_bind.2 (wp_syncWallet permits ?_)
  rintro (e | ⟨⟩)
  · trivial
  refine wp_bind.2 (wp_ofExcept.2 ?_)
  rcases outpointsOf funds with e | consumed
  · trivial
  refine wp_bind.2 (wp_finishPsbt permits (fun _ => trivial) fun psbt assumed => ?_)
  refine wp_bind.2 (wp_mono (wp_signed permits capped assumed) ?_)
  rintro (e | tx) w' post <;> exact post

theorem wp_buildSignedSpendingSp {payee : String} {sats : ℕ} {funds : List Ledger.SpUtxo} :
    wp ((interp host).restrict assume) G
      (fun result => BuildPost host assume sats maxFeeSats w (result.map Prod.fst))
      (buildSignedSpendingSp host payee sats maxFeeSats funds) w := by
  unfold buildSignedSpendingSp
  split
  · refine wp_bind.2 (wp_mono (wp_buildSigned permits) ?_)
    rintro (e | tx) w' post <;> exact post
  · refine wp_bind.2 (wp_mainnetGuard permits (fun _ => trivial) fun capped => ?_)
    refine wp_bind.2 (wp_syncWallet permits ?_)
    rintro (e | ⟨⟩)
    · trivial
    refine wp_bind.2 (wp_ofExcept.2 ?_)
    rcases host.parseAddress payee with e | recipient
    · trivial
    refine wp_bind.2 (wp_ofExcept.2 ?_)
    rcases outpointsOf funds with e | consumed
    · trivial
    refine wp_bind.2 (wp_finishPsbt permits (fun _ => trivial) fun psbt assumed => ?_)
    refine wp_bind.2 (wp_mono (wp_signed permits capped assumed) ?_)
    rintro (e | tx) w' post <;> exact post

end Builders

/-! ## The record -/

/-- The sidecar is complete and the time of the entry is read. -/
def World.staged (w : World) (tx : Tx) (now : ℕ) : World :=
  { w.putSidecar tx.txid (.hex tx) with clock := now }

/-- The entry `record` appends. -/
def sentEntry (w : World) (led : Handle) (tx : Tx) (sats : ℕ) (payee : String) (now : ℕ) : Entry :=
  .sent (Ledger.nextSeq (w.mem led)) tx.txid sats payee .pending now

/-- The record ends in a broadcast of what was staged and appended, or fails before. -/
theorem wp_record {host : Host} {assume : Guarantee sig World} {G : Guarantee sig World}
    {w : World} {led : Handle} {tx : Tx} {sats : ℕ} {payee : String} {maxFeeSats : Option ℕ}
    {Q : Except Error Unit → World → Prop} (permits : PermitsBuild G maxFeeSats)
    (failed : ∀ e w', Q (.error e) w')
    (writes : ∀ answer, G w (.writeSidecar tx.txid tx) answer)
    (appends : ∀ (now : ℕ), assume (w.putSidecar tx.txid (.hex tx)) .nowUnix now → ∀ answer,
      G (w.staged tx now) (.append led (sentEntry w led tx sats payee now)) answer)
    (broadcasts : ∀ (now : ℕ), assume (w.putSidecar tx.txid (.hex tx)) .nowUnix now →
      let v := (w.staged tx now).appended led (sentEntry w led tx sats payee now)
      (∀ answer, G v (.broadcast tx) answer) ∧ Q (.ok ()) { v with net := tx :: v.net }) :
    wp ((interp host).restrict assume) G Q (record led tx sats payee) w := by
  refine wp_bind.2 ?_
  rintro (⟨⟩ | e | e) -
  · refine ⟨writes _, wp_bind.2 fun es read => ⟨permits.prepares _ _ _ trivial, ?_⟩⟩
    obtain rfl : es = w.mem led := read.1
    refine wp_bind.2 fun now timed => ⟨permits.prepares _ _ _ trivial, wp_bind.2 ?_⟩
    rintro (⟨⟩ | e | e) -
    · refine ⟨appends now timed.2 _, ?_⟩
      rintro (e | ⟨⟩) -
      · exact ⟨(broadcasts now timed.2).1 _, failed _ _⟩
      · exact ⟨(broadcasts now timed.2).1 _, (broadcasts now timed.2).2⟩
    · exact ⟨appends now timed.2 _, failed _ _⟩
    · exact ⟨appends now timed.2 _, failed _ _⟩
  · exact ⟨writes _, failed _ _⟩
  · exact ⟨writes _, failed _ _⟩

/-! ## The send paths, up to the record -/

section Sends

variable {host : Host} {assume : Guarantee sig World} {G : Guarantee sig World} {w : World}
  {maxFeeSats : Option ℕ} {led : Handle} {sats : ℕ} {Q : Except Error String → World → Prop}
  (permits : PermitsBuild G maxFeeSats) (failed : ∀ e w', Q (.error e) w')
include permits failed

theorem wp_send {payee : String}
    (recorded : ∀ tx consumed w', Built host assume sats maxFeeSats w tx w' →
      wp ((interp host).restrict assume) G (fun result => Q (result.map fun _ => tx.txid))
        (record led tx sats payee >>= fun _ => markSpent led consumed) w') :
    wp ((interp host).restrict assume) G Q (send host led payee sats maxFeeSats) w := by
  refine wp_bind.2 (wp_mono (wp_buildSigned permits) ?_)
  rintro (e | tx) w₁ built
  · exact failed _ _
  refine wp_bind.2 (wp_mono (wp_bind.1 (recorded tx [] w₁ built)) ?_)
  rintro (e | ⟨⟩) w₂ post <;> exact post

theorem wp_spSend {code : String}
    (recorded : ∀ tx consumed w', Built host assume sats maxFeeSats w tx w' →
      wp ((interp host).restrict assume) G (fun result => Q (result.map fun _ => tx.txid))
        (record led tx sats code >>= fun _ => markSpent led consumed) w') :
    wp ((interp host).restrict assume) G Q (spSend host led code sats maxFeeSats) w := by
  unfold spSend
  split
  · exact failed _ _
  refine wp_bind.2 (wp_ofExcept.2 ?_)
  rcases decode host code with e | ⟨scan, spend, net⟩
  · exact failed _ _
  refine bindPost_ok.2 ?_
  dsimp only
  split
  · exact failed _ _
  refine wp_bind.2 fun es _ => ⟨permits.prepares _ _ _ trivial, ?_⟩
  refine wp_bind.2 (wp_ofExcept.2 ?_)
  rcases host.spSpendKeypair with e | ⟨⟩
  · exact failed _ _
  refine wp_bind.2 (wp_mono (wp_buildSignedToSp permits) ?_)
  rintro (e | ⟨tx, address, consumed⟩) w₁ built
  · exact failed _ _
  refine wp_bind.2 (wp_loadPolicy permits (failed · _) ?_)
  refine wp_bind.2 (wp_gate (failed · _) fun _ => ?_)
  refine wp_bind.2 (wp_mono (wp_bind.1 (recorded tx consumed w₁ built)) ?_)
  rintro (e | ⟨⟩) w₂ post
  · exact post
  refine wp_bind.2 (wp_mono post ?_)
  rintro (e | ⟨⟩) w₃ done <;> exact done

theorem wp_sendSpendingSp {payee : String}
    (recorded : ∀ tx consumed w', Built host assume sats maxFeeSats w tx w' →
      wp ((interp host).restrict assume) G (fun result => Q (result.map fun _ => tx.txid))
        (record led tx sats payee >>= fun _ => markSpent led consumed) w') :
    wp ((interp host).restrict assume) G Q (sendSpendingSp host led payee sats maxFeeSats) w := by
  refine wp_bind.2 fun es _ => ⟨permits.prepares _ _ _ trivial, ?_⟩
  refine wp_bind.2 (wp_ofExcept.2 ?_)
  rcases host.spSpendKeypair with e | ⟨⟩
  · exact failed _ _
  refine wp_bind.2 (wp_mono (wp_buildSignedSpendingSp permits) ?_)
  rintro (e | ⟨tx, consumed⟩) w₁ built
  · exact failed _ _
  refine wp_bind.2 (wp_mono (wp_bind.1 (recorded tx consumed w₁ built)) ?_)
  rintro (e | ⟨⟩) w₂ post
  · exact post
  refine wp_bind.2 (wp_mono post ?_)
  rintro (e | ⟨⟩) w₃ done <;> exact done

end Sends

/-! ## The entry points, up to the send -/

/-- The first address response the peer sends, if it sends one. -/
def firstResponse : List Message → Option (String × ℕ)
  | [] => none
  | .addrResponse address index :: _ => some (address, index)
  | _ :: inbox => firstResponse inbox

/-- Waiting for an address calls nothing: it ends in the first response, or fails. -/
theorem wp_awaitAddress {σ : Type} {I : Interp sig σ} {G : Guarantee sig σ}
    {Q : Except Error (String × ℕ) → σ → Prop} {closed : Except Error Unit} {inbox : List Message}
    {s : σ} (ended : ∀ result : Except Error (String × ℕ),
      result.toOption = firstResponse inbox → Q result s) :
    wp I G Q (awaitAddress closed inbox) s := by
  induction inbox with
  | nil =>
      rcases closed with e | ⟨⟩
      · exact ended (.error _) rfl
      · exact ended (.error _) rfl
  | cons message inbox ih =>
      cases message with
      | addrResponse address index => exact ended (.ok (address, index)) rfl
      | _ => exact ih ended

section Entries

variable {host : Host} {assume : Guarantee sig World} {G : Guarantee sig World} {w : World}
  {led : Handle} {sats : ℕ} (permits : PermitsBuild G host.policy.maxFeeSats)
include permits

theorem wp_openWithIdentity {Q : Except Error Handle → World → Prop} (failed : ∀ e, Q (.error e) w)
    (opened : Q (.ok w.fresh) (w.load w.fresh)) :
    wp ((interp host).restrict assume) G Q Ledger.openWithIdentity w := by
  rintro (e | led) ⟨allowed, -⟩
  · exact ⟨permits.prepares _ _ _ trivial, failed e⟩
  · obtain rfl : led = w.fresh := allowed
    exact ⟨permits.prepares _ _ _ trivial, opened⟩

/-- The amount gate passed at `now`, against what the instance has on record. -/
def AmountPassed (host : Host) (w : World) (led : Handle) (sats now : ℕ) : Prop :=
  host.policy.checkAmount sats (Ledger.spentSince (w.mem led) (now - dailyWindowSecs)) = .ok ()

theorem wp_spendGate {Q : Except Error Unit → World → Prop} (failed : ∀ e w', Q (.error e) w')
    (passed : ∀ now : ℕ, assume w .nowUnix now → AmountPassed host w led sats now →
      Q (.ok ()) { w with clock := now }) :
    wp ((interp host).restrict assume) G Q (spendGate led host.policy sats) w := by
  refine wp_bind.2 fun now timed => ⟨permits.prepares _ _ _ trivial, ?_⟩
  refine wp_bind.2 fun es read => ⟨permits.prepares _ _ _ trivial, ?_⟩
  obtain rfl : es = w.mem led := read.1
  exact wp_gate (failed · _) (passed now timed.2)

theorem wp_gated {α : Type} {payee : String} {pay : Option ℕ → Prog α}
    {Q : Except Error α → World → Prop} (failed : ∀ e w', Q (.error e) w')
    (paid : ∀ now : ℕ, assume w .nowUnix now → AmountPassed host w led sats now →
      payee ∉ host.policy.blockedAddresses →
        wp ((interp host).restrict assume) G Q (pay host.policy.maxFeeSats)
          { w with clock := now }) :
    wp ((interp host).restrict assume) G Q (gated led payee sats pay) w := by
  refine wp_bind.2 (wp_loadPolicy permits (failed · _) ?_)
  refine wp_bind.2 (wp_spendGate permits failed fun now timed passed => ?_)
  refine wp_bind.2 (wp_gate (failed · _) fun listed => ?_)
  exact paid now timed passed (Policy.checkAddress_ok.1 listed)

theorem wp_runPayer {inbox : List Message} {closed : Except Error Unit}
    {Q : Except Error Unit → World → Prop} (ended : ∀ result w', Q result w')
    (paid : ∀ (now : ℕ) address, assume w .nowUnix now → AmountPassed host w led sats now →
      address ∉ host.policy.blockedAddresses →
        wp ((interp host).restrict assume) G (fun _ _ => True)
          (send host led address sats host.policy.maxFeeSats)
          { w with clock := now, wire := .addrRequest sats :: w.wire }) :
    wp ((interp host).restrict assume) G Q (runPayer host led inbox closed sats) w := by
  refine wp_bind.2 (wp_loadPolicy permits (fun _ => ended _ _) ?_)
  refine wp_bind.2 (wp_spendGate permits (fun _ _ => ended _ _) fun now timed passed => ?_)
  refine wp_bind.2 ?_
  rintro (e | ⟨⟩) - <;> refine ⟨permits.prepares _ _ _ trivial, ?_⟩
  · exact ended _ _
  refine wp_bind.2 (wp_awaitAddress ?_)
  rintro (e | ⟨address, index⟩) -
  · exact ended _ _
  refine wp_bind.2 (wp_gate (fun _ => ended _ _) fun listed => ?_)
  refine wp_bind.2 (wp_mono (paid now address timed passed (Policy.checkAddress_ok.1 listed)) ?_)
  rintro (e | txid) w' -
  · exact ended _ _
  · intro answer _
    exact ⟨permits.prepares _ _ _ trivial, wp_ofExcept.2 (ended _ _)⟩

theorem wp_tunnelPay {ep : Endpoint} {peerPub : String} {Q : Except Error Unit → World → Prop}
    (ended : ∀ result w', Q result w')
    (paid : ∀ (now : ℕ) address, assume (w.load w.fresh) .nowUnix now →
      AmountPassed host (w.load w.fresh) w.fresh sats now →
      address ∉ host.policy.blockedAddresses →
        wp ((interp host).restrict assume) G (fun _ _ => True)
          (send host w.fresh address sats host.policy.maxFeeSats)
          { w.load w.fresh with clock := now, wire := .addrRequest sats :: w.wire }) :
    wp ((interp host).restrict assume) G Q (tunnelPay host ep peerPub sats) w := by
  refine wp_bind.2 (wp_ofExcept.2 ?_)
  rcases host.parsePublicKey peerPub with e | ⟨⟩
  · exact ended _ _
  refine wp_bind.2 (wp_ofExcept.2 ?_)
  rcases host.parseSocketAddr ep.addr with e | ⟨⟩
  · exact ended _ _
  refine wp_bind.2 (wp_openWithIdentity permits (fun _ => ended _ _) ?_)
  refine wp_bind.2 ?_
  rintro (e | ⟨⟩) - <;> refine ⟨permits.prepares _ _ _ trivial, ?_⟩
  · exact ended _ _
  · exact wp_runPayer permits ended paid

omit permits in
theorem within_retryPaid {P : Op → Prop} (gets : ∀ url payment, P (.httpGet url payment))
    (url txid : String) (sats left : ℕ) : (retryPaid url txid sats left).Within P := by
  induction left with
  | zero => trivial
  | succ left ih =>
      refine within_bind ⟨gets _ _, fun answer => within_ofExcept⟩ fun retry => ?_
      split
      · trivial
      · exact ih

theorem wp_fetch {url : String} {maxSats : ℕ} {Q : Except Error FetchOut → World → Prop}
    (ended : ∀ result w', Q result w')
    (paid : ∀ (terms : Terms) (now : ℕ),
      checkTerms terms maxSats host.network.label (host.network = .bitcoin) = .ok () →
      assume w .nowUnix now → AmountPassed host w led terms.sats now →
      terms.payTo ∉ host.policy.blockedAddresses →
        wp ((interp host).restrict assume) G (fun _ _ => True)
          (spSend host led terms.payTo terms.sats host.policy.maxFeeSats)
          { w with clock := now }) :
    wp ((interp host).restrict assume) G Q (fetch host led url maxSats) w := by
  unfold fetch
  split
  · exact ended _ _
  refine wp_bind.2 ?_
  rintro (e | first) - <;> refine ⟨permits.prepares _ _ _ trivial, ?_⟩
  · exact ended _ _
  refine bindPost_ok.2 ?_
  split
  · exact ended _ _
  split
  · exact ended _ _
  refine wp_bind.2 (wp_ofExcept.2 ?_)
  rcases host.parseTerms first.body with e | terms
  · exact ended _ _
  refine wp_bind.2 (wp_ofExcept.2 ?_)
  rcases accepted : checkTerms terms maxSats host.network.label (host.network = .bitcoin) with e | ⟨⟩
  · exact ended _ _
  have gatedPay : wp ((interp host).restrict assume) G (fun _ _ => True)
      (gated led terms.payTo terms.sats fun maxFeeSats =>
        spSend host led terms.payTo terms.sats maxFeeSats) w :=
    wp_gated permits (fun _ _ => trivial) fun now => paid terms now accepted
  refine wp_bind.2 (wp_mono gatedPay ?_)
  rintro (e | txid) w' -
  · exact ended _ _
  refine wp_mono (wp_unguarded (within_retryPaid ?_ _ _ _ _)) fun _ _ _ => ended _ _
  intro url payment w answer
  exact permits.prepares _ _ _ trivial

end Entries

end ComputerMoney.Kernel
