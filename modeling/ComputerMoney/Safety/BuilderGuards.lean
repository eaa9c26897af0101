/-
# Safety.BuilderGuards -- what no answer of bdk or esplora gets past

Nothing is trusted here: every call may get any answer.  Whatever comes, a builder reads the
policy before all else and goes on only if the policy allows the network; bdk is told of the
ledger's income and of coins that bdk itself listed, and of a feerate within the bounds; and at
most one transaction is signed, one that bdk finished and whose fee the cap allows.
-/
import ComputerMoney.Safety.Builders

namespace ComputerMoney.Safety

set_option autoImplicit false

open Theory Theory.Program
open Kernel hiding PublicKey Error Psbt feeCap loadPolicy buildSigned buildSignedToSp
  buildSignedSpendingSp mainnetGuard
open Kernel.Builder Builders
open Kernel.Sp (Secp)

namespace BuilderGuards

abbrev Past := List (Event chainSig)

/-- Any answer to any call. -/
def atLarge : Interp chainSig Unit := ⟨fun _ _ _ => True, fun _ _ _ => ()⟩

/-- A policy was read that allows the network. -/
def Passed (network : Network) (history : Past) : Prop :=
  ∃ policy, ⟨.loadPolicy, (Except.ok policy : Except Kernel.Error Policy)⟩ ∈ history ∧
    ensureMainnetCapped network policy = .ok ()

def NoneSigned (history : Past) : Prop :=
  ∀ event ∈ history, ∀ psbt mixed, event.1 ≠ .sign psbt mixed

section

variable {F G X Xpriv : Type} [Field F] [AddCommGroup G] [Module F G] [DecidableEq F]

/-- What bdk may be told to build. -/
structure Asked (keys : Keys F G X Xpriv) (spSpendSk : Secret F) (sats : ℕ)
    (spUtxos : List Ledger.SpUtxo) (history : Past) (request : TxRequest) : Prop where
  rate : 1 ≤ request.feerate ∧ request.feerate ≤ maxFeerateSatPerVb
  value : request.recipient.value = sats
  /-- The income, output by output, as the ledger has it. -/
  foreign : List.Forall₂ (fun u (f : Foreign) => ∃ tweak sk,
    Pins keys spSpendSk u f.outpoint tweak sk ∧ f.witnessUtxo = pinnedUtxo keys sk u.sats)
      spUtxos request.foreign
  /-- Coins, only if bdk listed them. -/
  coins : request.utxos = [] ∨ ∃ coins : List DescUtxo, ⟨.listUnspent, coins⟩ ∈ history ∧
    ∀ outpoint ∈ request.utxos, outpoint ∈ coins.map DescUtxo.outpoint

/-- What may be signed. -/
structure Priced (keys : Keys F G X Xpriv) (maxFeeSats : Option ℕ) (history : Past)
    (psbt : Psbt) : Prop where
  finished : ∃ request, ⟨.finish request, (Except.ok psbt : Except Kernel.Error Psbt)⟩ ∈ history
  capped : ∃ fee, keys.psbtFee psbt = .ok fee ∧ ∀ cap, maxFeeSats = some cap → fee ≤ cap
  once : NoneSigned history

/-- What must have happened before a call. -/
def Guarded (keys : Keys F G X Xpriv) (spSpendSk : Secret F) (network : Network) (sats : ℕ)
    (maxFeeSats : Option ℕ) (spUtxos : List Ledger.SpUtxo) (history : Past) : ChainOp → Prop
  | .loadPolicy => history = []
  | .finish request => Passed network history ∧ Asked keys spSpendSk sats spUtxos history request
  | .sign psbt _ => Passed network history ∧ Priced keys maxFeeSats history psbt
  | _ => Passed network history

/-- Calls that only read, or tell the builder of an input. -/
def Asking : ChainOp → Prop
  | .fullScan | .feeEstimates | .listUnspent | .addUtxo _ | .addForeignUtxo _ => True
  | _ => False

/-- The history since the guard. -/
structure Later (network : Network) (before history : Past) : Prop where
  passed : Passed network history
  unsigned : NoneSigned history
  grown : before <:+ history

/-! ## Histories -/

variable {keys : Keys F G X Xpriv} {spSpendSk : Secret F} {network : Network} {sats : ℕ}
  {maxFeeSats : Option ℕ} {spUtxos : List Ledger.SpUtxo} {before history : Past}

theorem Passed.grow (passed : Passed network before) (grown : before <:+ history) :
    Passed network history := by
  obtain ⟨policy, read, capped⟩ := passed
  exact ⟨policy, grown.subset read, capped⟩

theorem Later.refl (passed : Passed network before) (unsigned : NoneSigned before) :
    Later network before before :=
  ⟨passed, unsigned, List.suffix_rfl⟩

theorem Later.cons {op : ChainOp} (later : Later network before history) (asking : Asking op)
    (answer : op.Ans) : Later network before (⟨op, answer⟩ :: history) := by
  have grown : history <:+ ⟨op, answer⟩ :: history := List.suffix_cons _ _
  refine ⟨later.passed.grow grown, fun event member => ?_, later.grown.trans grown⟩
  rcases List.mem_cons.1 member with rfl | earlier
  · rintro psbt mixed rfl
    exact asking
  · exact later.unsigned event earlier

/-- What is promised of each call, as a guarantee of runs that keep their history. -/
def Guards (keys : Keys F G X Xpriv) (spSpendSk : Secret F) (network : Network) (sats : ℕ)
    (maxFeeSats : Option ℕ) (spUtxos : List Ledger.SpUtxo) : Guarantee chainSig (Unit × Past) :=
  fun s op _ => Guarded keys spSpendSk network sats maxFeeSats spUtxos s.2 op

theorem guarded_of_asking {op : ChainOp} (asking : Asking op) (passed : Passed network history) :
    Guarded keys spSpendSk network sats maxFeeSats spUtxos history op := by
  cases op with
  | loadPolicy => exact absurd asking id
  | finish request => exact absurd asking id
  | sign psbt mixed => exact absurd asking id
  | _ => exact passed

/-! ## The parts of a build -/

/-- What a program of asking calls leaves, and what it may return. -/
theorem wp_asking {α : Type} {p : Chain α} (body : p.Within Asking)
    (passed : Passed network before) (unsigned : NoneSigned before) :
    wp atLarge.recorded (Guards keys spSpendSk network sats maxFeeSats spUtxos)
      (fun result s => Later network before s.2 ∧
        ∀ value, result = .ok value → Returns atLarge p value) p ((), before) :=
  wp_returns body (Later.refl passed unsigned) fun _ _ answer asking later =>
    ⟨guarded_of_asking asking later.passed, later.cons asking answer⟩

/-- After one, the rest. -/
theorem wp_asking_bind {α β : Type} {p : Chain α} {f : α → Chain β} (body : p.Within Asking)
    (passed : Passed network before) (unsigned : NoneSigned before)
    (rest : ∀ value history, Later network before history → Returns atLarge p value →
      wp atLarge.recorded (Guards keys spSpendSk network sats maxFeeSats spUtxos)
        (fun _ _ => True) (f value) ((), history)) :
    wp atLarge.recorded (Guards keys spSpendSk network sats maxFeeSats spUtxos)
      (fun _ _ => True) (p >>= f) ((), before) := by
  refine wp_bind.2 (wp_mono (wp_asking body passed unsigned) ?_)
  intro result s ⟨later, returns⟩
  cases result with
  | error e => trivial
  | ok value => exact bindPost_ok.2 (rest value s.2 later (returns value rfl))

theorem within_returned {α : Type} {outcome : Except Kernel.Error α} {P : ChainOp → Prop} :
    (returned outcome).Within P := by
  cases outcome <;> trivial

theorem within_handled {α : Type} {outcome : Mcp.Handler α} {P : ChainOp → Prop} :
    (handled outcome).Within P := by
  unfold handled
  split
  · trivial
  · exact within_returned

theorem asking_fullScan : fullScan.Within Asking := ⟨trivial, fun _ => within_returned⟩

theorem asking_recommendedFeerate : (recommendedFeerate network).Within Asking :=
  within_bind ⟨trivial, fun _ => trivial⟩ fun _ => trivial

theorem asking_pinned {u : Ledger.SpUtxo} : (pinned keys spSpendSk u).Within Asking := by
  refine within_bind within_returned fun txid => ?_
  refine within_bind within_handled fun tweak => ?_
  exact within_bind within_returned fun sk => trivial

theorem asking_addPinned {u : Ledger.SpUtxo} : (addPinned keys spSpendSk u).Within Asking := by
  refine within_bind asking_pinned fun input => ?_
  exact within_bind ⟨trivial, fun _ => within_returned⟩ fun _ => trivial

theorem asking_taprootInputSecret {master : Xpriv} {coin branch index : ℕ} :
    (taprootInputSecret keys master coin branch index).Within Asking := by
  refine within_bind within_returned fun child => ?_
  split <;> trivial

/-- A feerate that is recommended is one in between. -/
theorem clamped {feerate : ℕ} (run : Returns atLarge (recommendedFeerate network) feerate) :
    1 ≤ feerate ∧ feerate ≤ maxFeerateSatPerVb := by
  obtain ⟨estimates, -, run⟩ := returns_bind.1 run
  obtain rfl := returns_pure.1 run
  unfold clampFeerate maxFeerateSatPerVb
  omega

/-- The guard, and what comes after it. -/
theorem wp_guarded {α : Type} {f : Unit → Chain α}
    (rest : ∀ history, Passed network history → NoneSigned history →
      wp atLarge.recorded (Guards keys spSpendSk network sats maxFeeSats spUtxos)
        (fun _ _ => True) (f ()) ((), history)) :
    wp atLarge.recorded (Guards keys spSpendSk network sats maxFeeSats spUtxos)
      (fun _ _ => True) (mainnetGuard network >>= f) ((), []) := by
  intro answer _
  refine ⟨rfl, ?_⟩
  cases answer with
  | error e => trivial
  | ok policy =>
      show wp _ _ _
        (returned ((ensureMainnetCapped network policy).mapError PolicyError.display) >>= f) _
      cases capped : ensureMainnetCapped network policy with
      | error refusal => trivial
      | ok done =>
          refine rest _ ⟨policy, List.mem_singleton.2 rfl, capped⟩ fun event member => ?_
          obtain rfl := List.mem_singleton.1 member
          exact fun psbt mixed same => by cases same

theorem wp_listUnspent_bind {α : Type} {f : List DescUtxo → Chain α}
    (passed : Passed network history)
    (rest : ∀ coins : List DescUtxo, wp atLarge.recorded
      (Guards keys spSpendSk network sats maxFeeSats spUtxos) (fun _ _ => True) (f coins)
        ((), ⟨.listUnspent, coins⟩ :: history)) :
    wp atLarge.recorded (Guards keys spSpendSk network sats maxFeeSats spUtxos)
      (fun _ _ => True) (listUnspent >>= f) ((), history) :=
  fun coins _ => ⟨passed, rest coins⟩

theorem wp_finish_bind {α : Type} {request : TxRequest} {f : Psbt → Chain α}
    (passed : Passed network history) (asked : Asked keys spSpendSk sats spUtxos history request)
    (rest : ∀ psbt : Psbt, wp atLarge.recorded
      (Guards keys spSpendSk network sats maxFeeSats spUtxos) (fun _ _ => True) (f psbt)
        ((), ⟨.finish request, (Except.ok psbt : Except Kernel.Error Psbt)⟩ :: history)) :
    wp atLarge.recorded (Guards keys spSpendSk network sats maxFeeSats spUtxos)
      (fun _ _ => True) (finish request >>= f) ((), history) := by
  intro answer _
  refine ⟨⟨passed, asked⟩, ?_⟩
  cases answer with
  | error e => trivial
  | ok psbt => exact rest psbt

/-- The signature is the last call. -/
theorem wp_sign_bind {α : Type} {psbt : Psbt} {mixed : Bool} {f : Psbt × Bool → Chain α}
    (passed : Passed network history) (priced : Priced keys maxFeeSats history psbt)
    (rest : ∀ signed, (f signed).Within fun _ => False) :
    wp atLarge.recorded (Guards keys spSpendSk network sats maxFeeSats spUtxos)
      (fun _ _ => True) (sign psbt mixed >>= f) ((), history) := by
  intro answer _
  refine ⟨⟨passed, priced⟩, wp_unguarded ?_⟩
  exact Within.mono (within_bind within_returned rest) fun op none => none.elim

/-- Fee, cap and signature of what bdk has just finished. -/
theorem wp_price {α : Type} {request : TxRequest} {psbt : Psbt} {f : ℕ → Chain α}
    (passed : Passed network history) (unsigned : NoneSigned history)
    (rest : ∀ fee history', Passed network history' → Priced keys maxFeeSats history' psbt →
      wp atLarge.recorded (Guards keys spSpendSk network sats maxFeeSats spUtxos)
        (fun _ _ => True) (f fee) ((), history')) :
    wp atLarge.recorded (Guards keys spSpendSk network sats maxFeeSats spUtxos)
      (fun _ _ => True)
      (returned (keys.psbtFee psbt) >>= fun fee => feeCap fee maxFeeSats >>= fun _ => f fee)
      ((), ⟨.finish request, (Except.ok psbt : Except Kernel.Error Psbt)⟩ :: history) := by
  cases priced : keys.psbtFee psbt with
  | error e => trivial
  | ok fee =>
      show wp _ _ _ (feeCap fee maxFeeSats >>= fun _ => f fee) _
      have goesOn (within_ : ∀ cap, maxFeeSats = some cap → fee ≤ cap) :
          wp atLarge.recorded (Guards keys spSpendSk network sats maxFeeSats spUtxos)
            (fun _ _ => True) (f fee)
            ((), ⟨.finish request, (Except.ok psbt : Except Kernel.Error Psbt)⟩ :: history) := by
        refine rest fee _ (passed.grow (List.suffix_cons _ _)) ⟨⟨request, List.mem_cons_self ..⟩,
          ⟨fee, priced, within_⟩, fun event member => ?_⟩
        rcases List.mem_cons.1 member with rfl | earlier
        · exact fun psbt mixed same => by cases same
        · exact unsigned event earlier
      cases maxFeeSats with
      | none => exact goesOn fun cap same => by cases same
      | some cap =>
          unfold feeCap
          dsimp only
          split
          case isTrue => trivial
          case isFalse under =>
              refine goesOn fun cap' same => ?_
              cases same
              omega

theorem within_finalizeMixedPsbt {psbt : Psbt} {entries : List (OutPoint × List UInt8)}
    {P : ChainOp → Prop} : (finalizeMixedPsbt keys psbt entries spSpendSk).Within P := by
  unfold finalizeMixedPsbt
  split
  · trivial
  · refine within_bind (within_each fun entry _ => ?_) fun _ => trivial
    unfold finalizeInput
    split
    · exact within_bind within_returned fun _ => within_bind within_returned fun _ => trivial
    · split <;> trivial

theorem wp_signMixed {α : Type} {request : TxRequest} {psbt : Psbt}
    {entries : List (OutPoint × List UInt8)} {f : Transaction × ℕ → Chain α}
    (passed : Passed network history) (unsigned : NoneSigned history)
    (rest : ∀ signed, (f signed).Within fun _ => False) :
    wp atLarge.recorded (Guards keys spSpendSk network sats maxFeeSats spUtxos)
      (fun _ _ => True) (signMixed keys psbt maxFeeSats entries spSpendSk >>= f)
      ((), ⟨.finish request, (Except.ok psbt : Except Kernel.Error Psbt)⟩ :: history) := by
  unfold signMixed
  simp only [bind_bind]
  refine wp_price passed unsigned fun fee history' passed priced => ?_
  refine wp_sign_bind passed priced fun signed => ?_
  refine within_bind within_finalizeMixedPsbt fun psbt => ?_
  exact within_bind within_returned fun _ => rest _

/-! ## The builders -/

theorem foreign_of_adds {foreign : List (Foreign × List UInt8)}
    (adds : Returns atLarge (.each (addPinned keys spSpendSk) spUtxos) foreign) :
    List.Forall₂ (fun u (f : Foreign) => ∃ tweak sk, Pins keys spSpendSk u f.outpoint tweak sk ∧
      f.witnessUtxo = pinnedUtxo keys sk u.sats) spUtxos (foreign.map Prod.fst) := by
  refine List.forall₂_map_right_iff.2 ((returns_each.1 adds).imp fun u input run => ?_)
  obtain ⟨sk, pins, utxo⟩ := returns_addPinned run
  exact ⟨input.2, sk, pins, utxo⟩

theorem guards_buildSigned {payee : String} :
    wp atLarge.recorded (Guards keys spSpendSk network sats maxFeeSats []) (fun _ _ => True)
      (buildSigned keys network payee sats maxFeeSats) ((), []) := by
  unfold buildSigned
  refine wp_guarded fun h₀ passed unsigned => ?_
  refine wp_asking_bind asking_fullScan passed unsigned fun _ h₁ later₁ _ => ?_
  refine wp_asking_bind within_returned later₁.passed later₁.unsigned
    fun recipient h₂ later₂ _ => ?_
  refine wp_asking_bind asking_recommendedFeerate later₂.passed later₂.unsigned
    fun feerate h₃ later₃ rate => ?_
  refine wp_finish_bind later₃.passed ⟨clamped rate, rfl, .nil, .inl rfl⟩ fun psbt => ?_
  refine wp_price later₃.passed later₃.unsigned fun fee h₄ passed₄ priced => ?_
  refine wp_sign_bind passed₄ priced fun signed => ?_
  obtain ⟨psbt', finalized⟩ := signed
  cases finalized with
  | false => trivial
  | true => exact within_bind within_returned fun _ => trivial

theorem guards_buildSignedSpendingSp {payee : String} :
    wp atLarge.recorded (Guards keys spSpendSk network sats maxFeeSats spUtxos) (fun _ _ => True)
      (buildSignedSpendingSp keys network payee sats maxFeeSats spUtxos spSpendSk) ((), []) := by
  unfold buildSignedSpendingSp
  split
  case isTrue empty =>
      obtain rfl := List.isEmpty_iff.1 empty
      refine wp_bind.2 (wp_mono guards_buildSigned ?_)
      intro result s _
      cases result <;> trivial
  case isFalse =>
      refine wp_guarded fun h₀ passed unsigned => ?_
      refine wp_asking_bind asking_fullScan passed unsigned fun _ h₁ later₁ _ => ?_
      refine wp_asking_bind within_returned later₁.passed later₁.unsigned
        fun recipient h₂ later₂ _ => ?_
      refine wp_asking_bind asking_recommendedFeerate later₂.passed later₂.unsigned
        fun feerate h₃ later₃ rate => ?_
      refine wp_asking_bind (within_each fun u _ => asking_addPinned) later₃.passed later₃.unsigned
        fun foreign h₄ later₄ adds => ?_
      refine wp_finish_bind later₄.passed ⟨clamped rate, rfl, foreign_of_adds adds, .inl rfl⟩
        fun psbt => ?_
      exact wp_signMixed later₄.passed later₄.unsigned fun _ => trivial

variable [DecidableEq G]

theorem guards_buildSignedToSp {extDesc : List Char} {scan spend : Point G} :
    wp atLarge.recorded (Guards keys spSpendSk network sats maxFeeSats spUtxos) (fun _ _ => True)
      (buildSignedToSp keys network extDesc scan spend sats maxFeeSats spUtxos spSpendSk)
      ((), []) := by
  unfold buildSignedToSp
  refine wp_guarded fun h₀ passed unsigned => ?_
  refine wp_asking_bind asking_fullScan passed unsigned fun _ h₁ later₁ _ => ?_
  refine wp_asking_bind asking_recommendedFeerate later₁.passed later₁.unsigned
    fun feerate h₂ later₂ rate => ?_
  refine wp_asking_bind (within_each fun u _ => asking_pinned) later₂.passed later₂.unsigned
    fun spInputs h₃ later₃ _ => ?_
  refine wp_listUnspent_bind later₃.passed fun coins => ?_
  have asking : Asking .listUnspent := trivial
  have later₄ := later₃.cons asking coins
  dsimp only
  split
  case h_1 => trivial
  case h_2 selected selection =>
      refine wp_asking_bind within_returned later₄.passed later₄.unsigned
        fun master h₅ later₅ _ => ?_
      refine wp_asking_bind (within_each fun coin _ => asking_taprootInputSecret) later₅.passed
        later₅.unsigned fun secrets h₆ later₆ _ => ?_
      refine wp_asking_bind within_returned later₆.passed later₆.unsigned fun key h₇ later₇ _ => ?_
      refine wp_asking_bind (within_each fun coin _ => ⟨trivial, fun _ => within_returned⟩)
        later₇.passed later₇.unsigned fun _ h₈ later₈ _ => ?_
      refine wp_asking_bind (within_each fun u _ => asking_addPinned) later₈.passed later₈.unsigned
        fun foreign h₉ later₉ adds => ?_
      -- The list of coins is still in the history.
      have listed : ⟨.listUnspent, coins⟩ ∈ h₉ :=
        (later₅.grown.trans (later₆.grown.trans (later₇.grown.trans (later₈.grown.trans
          later₉.grown)))).subset (List.mem_cons_self ..)
      refine wp_finish_bind later₉.passed ⟨clamped rate, rfl, foreign_of_adds adds,
        .inr ⟨coins, listed, ?_⟩⟩ fun psbt => ?_
      · intro outpoint member
        obtain ⟨coin, chosen, rfl⟩ := List.mem_map.1 member
        exact List.mem_map_of_mem (mem_selected selection coin chosen)
      · exact wp_signMixed later₉.passed later₉.unsigned fun _ => trivial

end

end BuilderGuards

open BuilderGuards

section

variable {F G X Xpriv : Type} [Field F] [AddCommGroup G] [Module F G] [DecidableEq F]
  [DecidableEq G]

/-- **No answer gets a builder past its guards.**  In every run of a builder, cut anywhere,
each call stands behind what it needs: the policy before all else, what was asked for before
bdk finishes, the fee cap and bdk's own transaction before the one signature. -/
theorem builders_guarded (keys : Keys F G X Xpriv) (spSpendSk : Secret F) (network : Network)
    (payee : String) (extDesc : List Char) (scan spend : Point G) (sats : ℕ)
    (maxFeeSats : Option ℕ) (spUtxos : List Ledger.SpUtxo) (history : Past) (op : ChainOp)
    (answer : op.Ans) :
    (Calls atLarge.recorded (buildSigned keys network payee sats maxFeeSats) ((), []) ((), history)
      op answer → Guarded keys spSpendSk network sats maxFeeSats [] history op) ∧
    (Calls atLarge.recorded (buildSignedSpendingSp keys network payee sats maxFeeSats spUtxos
      spSpendSk) ((), []) ((), history) op answer →
        Guarded keys spSpendSk network sats maxFeeSats spUtxos history op) ∧
    (Calls atLarge.recorded (buildSignedToSp keys network extDesc scan spend sats maxFeeSats spUtxos
      spSpendSk) ((), []) ((), history) op answer →
        Guarded keys spSpendSk network sats maxFeeSats spUtxos history op) := by
  refine ⟨?_, ?_, ?_⟩
  · exact fun made => wp_calls guards_buildSigned made
  · exact fun made => wp_calls guards_buildSignedSpendingSp made
  · exact fun made => wp_calls guards_buildSignedToSp made

end

/-! ## A plain payment over the integers modulo seven -/

namespace BuilderGuards

def plainFinished : Psbt where
  head := [2]
  inputs := [sevenInput (firstTxid, 0) none]
  outputs := [⟨"0014aa", 1000⟩, ⟨"0014bb", 1200⟩]

def plainAsked : TxRequest := ⟨1, false, [], [], ⟨"0014aa", 1000⟩⟩

/-- The calls before the signature, the last first. -/
def plainHistory : Past :=
  [⟨.finish plainAsked, (Except.ok plainFinished : Except Kernel.Error Psbt)⟩,
    ⟨.feeEstimates, ([(6, 1)] : List (ℕ × ℕ))⟩,
    ⟨.fullScan, (Except.ok () : Except Kernel.Error Unit)⟩,
    ⟨.loadPolicy, (Except.ok Policy.default : Except Kernel.Error Policy)⟩]

theorem calls_later {α : Type} (op : ChainOp) {op' : ChainOp} {next : op.Ans → Chain α}
    {h h' : Past} (answer : op.Ans) {answer' : op'.Ans}
    (rest : Calls atLarge.recorded (next answer) ((), ⟨op, answer⟩ :: h) ((), h') op' answer') :
    Calls atLarge.recorded (.call op next) ((), h) ((), h') op' answer' :=
  .later trivial rest

theorem plain_calls : Calls atLarge.recorded
    (buildSigned sevenKeys .signet "0014aa" 1000 (some 400)) ((), []) ((), plainHistory)
      (.sign plainFinished false)
      (Except.error "" : Except Kernel.Error (Psbt × Bool)) := by
  refine calls_later .loadPolicy (Except.ok Policy.default) ?_
  refine calls_later .fullScan (Except.ok ()) ?_
  refine calls_later .feeEstimates [(6, 1)] ?_
  refine calls_later (.finish plainAsked) (Except.ok plainFinished) ?_
  exact .here trivial

end BuilderGuards

theorem builders_guarded_plain :
    Guarded sevenKeys (sevenSecret 2) .signet 1000 (some 400) [] plainHistory
      (.sign plainFinished false) :=
  (builders_guarded sevenKeys (sevenSecret 2) .signet "0014aa" [] (sevenCurve.publicKey sevenScan)
    (sevenCurve.publicKey sevenSpend) 1000 (some 400) [] plainHistory (.sign plainFinished false)
    (Except.error "")).1 plain_calls

end ComputerMoney.Safety
