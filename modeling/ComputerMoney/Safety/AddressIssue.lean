/-
# Safety.AddressIssue -- every address is on file before it is given out, and given once

The next index lives in two places: in the session's receiver, which counts on by itself,
and in the ledger instance, from which a new session starts.  A failed append or a failed
send ends the session in the middle, and a line may be on file that the instance lacks.
What keeps the two together is that an address leaves only after its line has reached the
instance: whatever was sent, the instance knows (`Remembers`), a session counts from above
what the instance knows, and a restart reads at least that from the file.
-/
import ComputerMoney.Safety.Receipts

namespace ComputerMoney.Safety

set_option autoImplicit false

open Theory Theory.Program Kernel

/-! ## What was given out -/

/-- The indexes of the responses on the wire, newest first. -/
def sentIndexes (wire : List Message) : List ℕ :=
  wire.filterMap fun message => match message with
    | .addrResponse _ index => some index
    | _ => none

/-- The bound on an index of an unhardened child key. -/
def derivationLimit : ℕ := 2 ^ 31

/-- No key is derived at or above the limit. -/
def Derives (host : Host) : Prop :=
  ∀ index address, host.walletAddress index = .ok address → index < derivationLimit

/-- What the files and the wire show at any time: each index given out is on file, none
was given out twice, and none on file is above the limit. -/
structure GivenOnce (w : World) : Prop where
  onFile : ∀ index ∈ sentIndexes w.wire, Issued w.ledger index
  once : (sentIndexes w.wire).Nodup
  below : ∀ index, Issued w.ledger index → index < derivationLimit

/-- The promise: a response leaves when its index is on file and was never given out. -/
def GivesFresh : Guarantee sig World
  | w, .wireSend (.addrResponse _ index), _ => Issued w.ledger index ∧ index ∉ sentIndexes w.wire
  | _, .append _ (.addressIssued _ index), _ => index < derivationLimit
  | _, _, _ => True

theorem issued_append {entries : List Entry} {e : Entry} {index : ℕ} :
    Issued (entries ++ [e]) index ↔ Issued entries index ∨ e.issuedIndex? = some index := by
  constructor
  · rintro ⟨e', member, is⟩
    rcases List.mem_append.1 member with old | new
    · exact .inl ⟨e', old, is⟩
    · exact .inr (List.mem_singleton.1 new ▸ is)
  · rintro (old | is)
    · exact old.append e
    · exact ⟨e, List.mem_append_right _ (List.mem_singleton_self _), is⟩

/-- A line that honours the promise may be added to the file. -/
theorem GivenOnce.written {w w' : World} {led : Handle} {e : Entry} {answer : AppendAnswer}
    (given : GivenOnce w) (promised : GivesFresh w (.append led e) answer)
    (ledger : w'.ledger = w.ledger ++ [e])
    (wire : sentIndexes w'.wire = sentIndexes w.wire) : GivenOnce w' where
  onFile index sent := ledger ▸ (given.onFile index (wire ▸ sent)).append e
  once := wire ▸ given.once
  below index issued := by
    rcases issued_append.1 (ledger ▸ issued) with old | new
    · exact given.below index old
    · cases e with
      | addressIssued seq index' =>
          cases new
          exact promised
      | _ => cases new

theorem GivenOnce.of_same {w w' : World} (given : GivenOnce w) (ledger : w'.ledger = w.ledger)
    (wire : sentIndexes w'.wire = sentIndexes w.wire) : GivenOnce w' :=
  ⟨ledger ▸ wire ▸ given.onFile, wire ▸ given.once, ledger ▸ given.below⟩

theorem keeps_givenOnce (host : Host) : Keeps (interp host) GivesFresh GivenOnce := by
  intro w op answer allowed promised given
  have framed : (∀ led e, op ≠ .append led e) →
      sentIndexes (w.after op answer).wire = sentIndexes w.wire →
      GivenOnce (w.after op answer) := fun appends wire =>
    given.of_same (World.after_ledger w answer appends) wire
  cases op with
  | append led e =>
      cases answer with
      | ok => exact given.written promised rfl rfl
      | lost error => exact given
      | kept error => exact given.written promised rfl rfl
  | wireSend message =>
      cases message with
      | addrResponse address index =>
          refine ⟨fun i sent => ?_, List.nodup_cons.2 ⟨promised.2, given.once⟩, given.below⟩
          rcases List.mem_cons.1 sent with rfl | before
          · exact promised.1
          · exact given.onFile i before
      | _ => exact given.of_same rfl rfl
  | _ => exact framed nofun (by first | rfl | cases answer <;> rfl)

/-! ## The daemon's instance -/

/-- The instance is open and knows whatever was given out. -/
structure Remembers (led : Handle) (w : World) : Prop where
  isOpen : led < w.fresh
  known : ∀ index ∈ sentIndexes w.wire, Issued (w.mem led) index

section Daemon

variable {host : Host} {led : Handle} {w : World}

theorem Remembers.of_same {w' : World} (knows : Remembers led w) (fresh : w.fresh ≤ w'.fresh)
    (mem : w'.mem led = w.mem led) (wire : sentIndexes w'.wire = sentIndexes w.wire) :
    Remembers led w' :=
  ⟨Nat.lt_of_lt_of_le knows.isOpen fresh, mem ▸ wire ▸ knows.known⟩

/-- Appends, by whichever instance. -/
theorem Remembers.append {led' : Handle} {e : Entry} (knows : Remembers led w)
    (answer : AppendAnswer) :
    Remembers led (w.after (.append led' e) answer) := by
  cases answer with
  | lost error => exact knows
  | kept error => exact knows.of_same (Nat.le_refl _) rfl rfl
  | ok =>
      rcases eq_or_ne led led' with rfl | different
      · have mem : (w.appended led e).mem led = w.mem led ++ [e] := Function.update_self ..
        exact ⟨knows.isOpen, fun index sent => mem ▸ (knows.known index sent).append e⟩
      · exact knows.of_same (Nat.le_refl _) (Function.update_of_ne different ..) rfl

/-- What the daemon does unasked gives nothing out. -/
theorem wp_watches {α : Type} {p : Prog α} (body : p.Within Op.watches) (knows : Remembers led w) :
    wp (interp host) GivesFresh (fun _ w' => Remembers led w') p w := by
  have moved := wp_within (R := fun w w' => Remembers led w → Remembers led w') (I := interp host)
    (G := GivesFresh) (w := w) body (fun _ => id) (fun first second => second ∘ first) ?_
  · exact wp_mono moved fun _ _ kept => kept knows
  intro w op answer watches allowed
  have framed : (∀ led e, op ≠ .append led e) → op ≠ .openLedger →
      sentIndexes (w.after op answer).wire = sentIndexes w.wire → Remembers led w →
      Remembers led (w.after op answer) :=
    fun appends opens wire knows =>
      knows.of_same (Nat.le_of_eq (World.after_fresh w answer opens).symm)
        (congrFun (World.after_mem w answer appends opens) led) wire
  cases op with
  | append led' e =>
      refine ⟨?_, fun knows => knows.append answer⟩
      cases e <;> first | exact watches.elim | trivial
  | openLedger =>
      refine ⟨trivial, fun knows => ?_⟩
      rcases answer with error | led'
      · exact knows
      · obtain rfl : led' = w.fresh := allowed
        exact knows.of_same (Nat.le_succ _)
          (Function.update_of_ne (Nat.ne_of_lt knows.isOpen) ..) rfl
  | _ =>
      first
        | exact watches.elim
        | exact ⟨trivial, framed nofun nofun (by first | rfl | cases answer <;> rfl)⟩

/-! ## Sessions -/

theorem le_foldl_max {xs : List ℕ} {a x : ℕ} (among : x ≤ a ∨ x ∈ xs) : x ≤ xs.foldl max a := by
  induction xs generalizing a with
  | nil => simpa using among
  | cons y xs ih =>
      refine ih ?_
      rcases among with first | member
      · exact .inl (Nat.le_trans first (Nat.le_max_left ..))
      · rcases List.mem_cons.1 member with rfl | rest
        · exact .inl (Nat.le_max_right ..)
        · exact .inr rest

/-- A session counts from above whatever the instance knows. -/
theorem lt_nextAddressIndex {entries : List Entry} {index : ℕ} (issued : Issued entries index) :
    index < Ledger.nextAddressIndex entries := by
  obtain ⟨e, member, is⟩ := issued
  exact le_foldl_max (.inr (List.mem_map_of_mem (List.mem_filterMap.2 ⟨e, member, is⟩)))

theorem wp_runReceiver_fresh (derives : Derives host) {closed : Except Error Unit}
    {inbox : List Message} {nextIndex : ℕ} {issuedIndex : Option ℕ} {issuedAddress : Option String}
    (knows : Remembers led w) (above : ∀ index, Issued (w.mem led) index → index < nextIndex) :
    wp (interp host) GivesFresh (fun _ w' => Remembers led w')
      (runReceiver host led closed inbox nextIndex issuedIndex issuedAddress) w := by
  induction inbox generalizing nextIndex issuedIndex issuedAddress w with
  | nil => exact wp_ofExcept.2 knows
  | cons message inbox ih =>
      cases message with
      | addrRequest sats =>
          unfold runReceiver
          simp only [receiverHandle]
          rcases own : host.walletAddress nextIndex with e | address
          · exact knows
          refine wp_bind.2 fun es allowed => ⟨trivial, bindPost_ok.2 ?_⟩
          refine wp_bind.2 fun answer allowed => ⟨derives nextIndex address own, ?_⟩
          generalize line : Entry.addressIssued (Ledger.nextSeq es) nextIndex = e at answer allowed
          have is : e.issuedIndex? = some nextIndex := by rw [← line]; rfl
          have knows₁ : Remembers led (w.after (.append led e) answer) := knows.append answer
          cases answer with
          | lost error => exact knows₁
          | kept error => exact knows₁
          | ok =>
              have mem : (w.appended led e).mem led = w.mem led ++ [e] := Function.update_self ..
              have unsent : nextIndex ∉ sentIndexes w.wire := fun sent =>
                Nat.lt_irrefl _ (above nextIndex (knows.known nextIndex sent))
              refine wp_bind.2 fun sent _ => ⟨⟨issued_append.2 (.inr is), unsent⟩, ?_⟩
              have knows₂ : Remembers led { w.appended led e with
                  wire := .addrResponse address nextIndex :: w.wire } := by
                refine ⟨knows.isOpen, fun index given => ?_⟩
                rcases List.mem_cons.1 given with rfl | before
                · exact mem ▸ issued_append.2 (.inr is)
                · exact knows₁.known index before
              rcases sent with error | ⟨⟩
              · exact knows₂
              refine bindPost_ok.2 (ih knows₂ fun index issued => ?_)
              rcases issued_append.1 (mem ▸ issued) with old | new
              · exact Nat.lt_succ_of_lt (above index old)
              · rw [is] at new
                cases new
                exact Nat.lt_succ_self _
      | notify txid claimed => exact wp_watches within_handleNotify knows
      | chat text => exact ih knows above
      | addrResponse address index => exact ih knows above

/-! ## The daemon -/

theorem wp_serve_fresh (derives : Derives host) (duties : List Duty) (given : GivenOnce w) :
    wp (interp host) GivesFresh (fun _ _ => True) (serve host duties) w := by
  refine wp_bind.2 ?_
  rintro (e | led) allowed <;> refine ⟨trivial, ?_⟩
  · trivial
  obtain rfl : led = w.fresh := allowed
  have view := w.load_mem
  have knows : Remembers w.fresh (w.load w.fresh) :=
    ⟨Nat.lt_succ_self _, fun index sent => view ▸ given.onFile index sent⟩
  refine bindPost_ok.2 (wp_forEach (J := Remembers w.fresh) knows (fun duty _ w' knows' => ?_)
    fun _ _ => trivial)
  cases duty with
  | watch pages =>
      refine wp_mono (wp_watches (within_chainWatch pages) knows') ?_
      rintro (e | ⟨⟩) w'' knows''
      · trivial
      · exact knows''
  | session inbox closed =>
      refine wp_bind.2 fun es read => ⟨trivial, bindPost_ok.2 ?_⟩
      obtain rfl : es = w'.mem w.fresh := read
      refine wp_bind.2 (wp_attempt.2 (wp_mono (wp_runReceiver_fresh derives knows'
        fun index issued => lt_nextAddressIndex issued) ?_))
      exact fun _ _ knows'' => knows''

end Daemon

theorem givenOnce_blank : GivenOnce World.blank where
  onFile _ sent := nomatch sent
  once := List.nodup_nil
  below _ issued := by
    obtain ⟨e, member, -⟩ := issued
    cases member

/-- **Every address given out is on file first, and is given out once.**  Over any number
of sessions with any messages, failed appends, failed sends, crashes and restarts: a
response leaves only when its index is on file; no two that ever left carry the same
index; and no index on file reaches the derivation limit, so the `u32` that counts them
never wraps. -/
theorem addresses_issued_once (host : Host) (derives : Derives host) :
    (∀ w address index answer, Made (interp host) (serve host) World.crash World.blank w
      (.wireSend (.addrResponse address index)) answer → Issued w.ledger index) ∧
    ∀ w, Reachable (interp host) (serve host) World.crash World.blank w →
      (sentIndexes w.wire).Nodup ∧ ∀ index, Issued w.ledger index → index < derivationLimit := by
  have survives : ∀ w, GivenOnce w → GivenOnce w.crash := fun _ given => given.of_same rfl rfl
  have guaranteed : ∀ (duties : List Duty) w, GivenOnce w →
      wp (interp host) GivesFresh (fun _ _ => True) (serve host duties) w :=
    fun duties _ given => wp_serve_fresh derives duties given
  refine ⟨fun w address index answer made => ?_, fun w reached => ?_⟩
  · exact (made.guaranteed givenOnce_blank (keeps_givenOnce host) survives guaranteed).1
  · have given := reached.inv givenOnce_blank (keeps_givenOnce host) survives guaranteed
    exact ⟨given.once, given.below⟩

/-! ## Two sessions -/

/-- A wallet that derives below the limit. -/
def issuingHost : Host :=
  { Host.sample .bitcoin .default with
    walletAddress := fun index =>
      if index < derivationLimit then .ok sampleAddress.display
      else .error "child number is out of range" }

/-- One buyer asks twice, the next once. -/
def issuingDuties : List Duty :=
  [.session [.addrRequest 1000, .chat "?", .addrRequest 2000] (.ok ()),
    .session [.addrRequest 500] (.error "timed out")]

def issuedTo : World :=
  (run (Script.silent.handle issuingHost) (serve issuingHost issuingDuties) World.blank).2

theorem addresses_issued_once_three :
    sentIndexes issuedTo.wire = [2, 1, 0] ∧ (sentIndexes issuedTo.wire).Nodup := by
  have derives : Derives issuingHost := by
    intro index address derived
    by_contra above
    rw [show issuingHost.walletAddress index = .error "child number is out of range" from
      if_neg above] at derived
    cases derived
  have exec : Exec (interp issuingHost) (serve issuingHost issuingDuties) World.blank
      (run (Script.silent.handle issuingHost) (serve issuingHost issuingDuties) World.blank).1
      issuedTo :=
    run_exec id _ _ (fun op w => Script.allowed issuingHost Script.silent w op) fun _ _ => rfl
  refine ⟨by decide +kernel, ((addresses_issued_once issuingHost derives).2 issuedTo ?_).1⟩
  exact ⟨_, issuingDuties, .boot, exec.reach⟩

end ComputerMoney.Safety
