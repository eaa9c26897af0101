/-
# Safety.StaleWriter -- when an append is made on the complete log

A ledger instance reads the file when it is opened and never again.  Whatever it decides
before an append, the number of the entry, that a payment is new, that the daily limit
allows it, it decides on what it holds; and the file may have grown since.  Only the
daemon takes the directory's lock, so any command may write beside it, and beside any
other.

`appends_on_complete_log` says exactly when an append is made on the complete log, in
every interleaving of every command: if since the instance was opened nobody else wrote a
line, and no append of its own reported an error and left its line all the same.  Where
that holds of every append, the entries are numbered upwards in file order.
-/
import ComputerMoney.Theory.Threads
import ComputerMoney.Kernel.Commands
import ComputerMoney.Safety.WriteAhead

namespace ComputerMoney.Safety

set_option autoImplicit false

open Theory Theory.Program Kernel

/-! ## The interleavings -/

/-- The directory, and the calls made on it. -/
abbrev Directory := World × Log sig

/-- Thread `i` opened the instance. -/
def OpenedBy (i : ℕ) (log : Log sig) (led : Handle) : Prop :=
  (i, (⟨.openLedger, .ok led⟩ : Event sig)) ∈ log

/-- The call opened the instance. -/
def opens (led : Handle) : Event sig → Bool
  | ⟨.openLedger, answer⟩ => match answer with
      | .ok led' => led' = led
      | .error _ => false
  | _ => false

/-- The call put a line on file that the instance does not hold. -/
def passesBy (led : Handle) : Event sig → Bool
  | ⟨.append led' _, answer⟩ => match answer with
      | .ok => led' ≠ led
      | .kept _ => true
      | .lost _ => false
  | _ => false

/-- Since the instance was opened no line passed it by. -/
def SoleWriter (led : Handle) : Log sig → Prop
  | [] => False
  | (_, event) :: log =>
      opens led event = true ∨ passesBy led event = false ∧ SoleWriter led log

instance decidableSoleWriter (led : Handle) : (log : Log sig) → Decidable (SoleWriter led log)
  | [] => .isFalse id
  | (_, event) :: log =>
      haveI := decidableSoleWriter led log
      inferInstanceAs (Decidable (opens led event = true ∨ passesBy led event = false ∧ _))

/-- The condition on a run: whoever appends is the sole writer. -/
def AppendsAlone : Guarantee sig Directory
  | s, .append led _, _ => SoleWriter led s.2
  | _, _, _ => True

/-- The reading of thread `i`, its calls logged, under a condition. -/
abbrev threads (host : Host) (cond : Guarantee sig Directory) (i : ℕ) : Interp sig Directory :=
  ((interp host).logged i).restrict cond

/-- Any interleaving of these commands on a new directory. -/
def Interleaves (host : Host) (cond : Guarantee sig Directory) (commands : List Command)
    (pool : Pool sig Error Unit) (s : Directory) : Prop :=
  Relation.ReflTransGen (Pool.Step (threads host cond))
    (commands.map (Command.perform host), (World.blank, [])) (pool, s)

/-! ## What the log says of an instance -/

/-- An opened instance has a handle already given out, to one thread; it holds what is on
file if it is the sole writer, and less if it is not. -/
structure Tracked (s : Directory) : Prop where
  given : ∀ i led, OpenedBy i s.2 led → led < s.1.fresh
  once : ∀ i j led, OpenedBy i s.2 led → OpenedBy j s.2 led → i = j
  current : ∀ i led, OpenedBy i s.2 led → SoleWriter led s.2 → s.1.mem led = s.1.ledger
  behind : ∀ i led, OpenedBy i s.2 led → ¬ SoleWriter led s.2 →
    (s.1.mem led).length < s.1.ledger.length

section

variable {host : Host} {cond : Guarantee sig Directory} {i : ℕ}

theorem openedBy_cons {j : ℕ} {event : Event sig} {log : Log sig} {led : Handle} :
    OpenedBy j ((i, event) :: log) led ↔
      (j = i ∧ event = ⟨.openLedger, .ok led⟩) ∨ OpenedBy j log led := by
  rw [OpenedBy, List.mem_cons, Prod.mk.injEq]
  exact or_congr_left (and_congr_right fun _ => eq_comm)

/-- A call that opens nothing and writes nothing. -/
theorem Tracked.aside {s : Directory} {op : Op} {answer : sig.Ans op} (tracked : Tracked s)
    (fresh : (s.1.after op answer).fresh = s.1.fresh) (mem : (s.1.after op answer).mem = s.1.mem)
    (ledger : (s.1.after op answer).ledger = s.1.ledger)
    (unopened : ∀ led, opens led ⟨op, answer⟩ = false)
    (unwritten : ∀ led, passesBy led ⟨op, answer⟩ = false) :
    Tracked (s.1.after op answer, (i, ⟨op, answer⟩) :: s.2) := by
  have opened : ∀ {j led}, OpenedBy j ((i, ⟨op, answer⟩) :: s.2) led → OpenedBy j s.2 led := by
    intro j led opened
    rcases openedBy_cons.1 opened with ⟨-, new⟩ | before
    · have opening : opens led ⟨op, answer⟩ = true := new ▸ decide_eq_true rfl
      rw [unopened led] at opening
      cases opening
    · exact before
  have sole : ∀ led, SoleWriter led ((i, ⟨op, answer⟩) :: s.2) ↔ SoleWriter led s.2 := by
    intro led
    constructor
    · rintro (new | ⟨-, before⟩)
      · rw [unopened led] at new
        cases new
      · exact before
    · exact fun before => .inr ⟨unwritten led, before⟩
  refine ⟨fun j led h => ?_, fun j k led h h' => ?_, fun j led h alone => ?_,
    fun j led h notAlone => ?_⟩
  · exact fresh ▸ tracked.given j led (opened h)
  · exact tracked.once j k led (opened h) (opened h')
  · show (s.1.after op answer).mem led = (s.1.after op answer).ledger
    rw [mem, ledger]
    exact tracked.current j led (opened h) ((sole led).1 alone)
  · show ((s.1.after op answer).mem led).length < (s.1.after op answer).ledger.length
    rw [mem, ledger]
    exact tracked.behind j led (opened h) fun before => notAlone ((sole led).2 before)

theorem Tracked.opened {s : Directory} (tracked : Tracked s) :
    Tracked (s.1.load s.1.fresh, (i, ⟨.openLedger, .ok s.1.fresh⟩) :: s.2) := by
  -- The new handle is nobody's, so what was opened before is another instance.
  have cases : ∀ {j led}, OpenedBy j ((i, ⟨.openLedger, .ok s.1.fresh⟩) :: s.2) led →
      (j = i ∧ led = s.1.fresh) ∨ (OpenedBy j s.2 led ∧ led < s.1.fresh) := by
    intro j led opened
    rcases openedBy_cons.1 opened with ⟨same, new⟩ | before
    · cases new
      exact .inl ⟨same, rfl⟩
    · exact .inr ⟨before, tracked.given j led before⟩
  have others : ∀ led, led < s.1.fresh → (s.1.load s.1.fresh).mem led = s.1.mem led :=
    fun led older => Function.update_of_ne (Nat.ne_of_lt older) ..
  have sole : ∀ led, led < s.1.fresh →
      (SoleWriter led ((i, ⟨.openLedger, .ok s.1.fresh⟩) :: s.2) ↔ SoleWriter led s.2) := by
    intro led older
    constructor
    · rintro (new | ⟨-, before⟩)
      · exact absurd (of_decide_eq_true new) (Nat.ne_of_gt older)
      · exact before
    · exact fun before => .inr ⟨rfl, before⟩
  refine ⟨fun j led h => ?_, fun j k led h h' => ?_, fun j led h alone => ?_,
    fun j led h notAlone => ?_⟩
  · rcases cases h with ⟨-, rfl⟩ | ⟨-, older⟩
    · exact Nat.lt_succ_self _
    · exact Nat.lt_succ_of_lt older
  · rcases cases h with ⟨rfl, rfl⟩ | ⟨before, older⟩ <;>
      rcases cases h' with ⟨rfl, same⟩ | ⟨before', older'⟩
    · rfl
    · exact absurd older' (Nat.lt_irrefl _)
    · exact absurd (same ▸ older) (Nat.lt_irrefl _)
    · exact tracked.once j k led before before'
  · rcases cases h with ⟨-, rfl⟩ | ⟨before, older⟩
    · exact s.1.load_mem
    · show (s.1.load s.1.fresh).mem led = s.1.ledger
      rw [others led older]
      exact tracked.current j led before ((sole led older).1 alone)
  · rcases cases h with ⟨-, rfl⟩ | ⟨before, older⟩
    · exact absurd (.inl (decide_eq_true rfl)) notAlone
    · show ((s.1.load s.1.fresh).mem led).length < s.1.ledger.length
      rw [others led older]
      exact tracked.behind j led before fun alone => notAlone ((sole led older).2 alone)

theorem Tracked.appended {s : Directory} {led : Handle} {e : Entry} (tracked : Tracked s) :
    Tracked (s.1.appended led e, (i, ⟨.append led e, .ok⟩) :: s.2) := by
  have opened : ∀ {j led'}, OpenedBy j ((i, ⟨.append led e, .ok⟩) :: s.2) led' →
      OpenedBy j s.2 led' := by
    intro j led' opened
    rcases openedBy_cons.1 opened with ⟨-, new⟩ | before
    · cases new
    · exact before
  have mine : (s.1.appended led e).mem led = s.1.mem led ++ [e] := Function.update_self ..
  have others : ∀ led', led' ≠ led → (s.1.appended led e).mem led' = s.1.mem led' :=
    fun led' different => Function.update_of_ne different ..
  refine ⟨fun j led' h => tracked.given j led' (opened h),
    fun j k led' h h' => tracked.once j k led' (opened h) (opened h'), fun j led' h alone => ?_,
    fun j led' h notAlone => ?_⟩
  · rcases alone with new | ⟨holds, before⟩
    · cases new
    obtain rfl : led = led' := not_not.1 (of_decide_eq_false holds)
    show (s.1.appended led e).mem led = s.1.ledger ++ [e]
    rw [mine, tracked.current j led (opened h) before]
  · show ((s.1.appended led e).mem led').length < (s.1.ledger ++ [e]).length
    rw [List.length_append, List.length_singleton]
    rcases eq_or_ne led' led with rfl | different
    · have notBefore : ¬ SoleWriter led' s.2 := fun before =>
        notAlone (.inr ⟨decide_eq_false (not_not.2 rfl), before⟩)
      have less := tracked.behind j led' (opened h) notBefore
      rw [mine, List.length_append, List.length_singleton]
      omega
    · rw [others led' different]
      by_cases before : SoleWriter led' s.2
      · rw [tracked.current j led' (opened h) before]
        exact Nat.lt_succ_self _
      · exact Nat.lt_succ_of_lt (tracked.behind j led' (opened h) before)

theorem Tracked.written {s : Directory} {led : Handle} {e : Entry} {error : Error}
    (tracked : Tracked s) :
    Tracked (s.1.written e, (i, ⟨.append led e, .kept error⟩) :: s.2) := by
  have opened : ∀ {j led'}, OpenedBy j ((i, ⟨.append led e, .kept error⟩) :: s.2) led' →
      OpenedBy j s.2 led' := by
    intro j led' opened
    rcases openedBy_cons.1 opened with ⟨-, new⟩ | before
    · cases new
    · exact before
  refine ⟨fun j led' h => tracked.given j led' (opened h),
    fun j k led' h h' => tracked.once j k led' (opened h) (opened h'), fun j led' h alone => ?_,
    fun j led' h notAlone => ?_⟩
  · rcases alone with new | ⟨holds, -⟩
    · cases new
    · cases holds
  · show (s.1.mem led').length < (s.1.ledger ++ [e]).length
    rw [List.length_append, List.length_singleton]
    by_cases before : SoleWriter led' s.2
    · rw [tracked.current j led' (opened h) before]
      exact Nat.lt_succ_self _
    · exact Nat.lt_succ_of_lt (tracked.behind j led' (opened h) before)

/-- Every call keeps the account. -/
theorem tracked_next {s : Directory} {op : Op} {answer : sig.Ans op}
    (allowed : (interp host).allowed s.1 op answer) (tracked : Tracked s) :
    Tracked (s.1.after op answer, (i, ⟨op, answer⟩) :: s.2) := by
  cases op with
  | openLedger =>
      rcases answer with error | led
      · exact tracked.aside rfl rfl rfl (fun _ => rfl) fun _ => rfl
      · obtain rfl : led = s.1.fresh := allowed
        exact tracked.opened
  | append led e =>
      cases answer with
      | ok => exact tracked.appended
      | lost error => exact tracked.aside rfl rfl rfl (fun _ => rfl) fun _ => rfl
      | kept error => exact tracked.written
  | _ =>
      exact tracked.aside (s.1.after_fresh answer nofun) (s.1.after_mem answer nofun nofun)
        (s.1.after_ledger answer nofun) (fun _ => rfl) fun _ => rfl

/-! ## What a command does to its own instances -/

/-- The promise of thread `i`: a call of `P`, and an entry for an instance of its own, with
the number after the last it holds. -/
def OwnStamped (P : Op → Prop) (i : ℕ) : Guarantee sig Directory := fun s op _ =>
  P op ∧ match op with
    | .append led e => OpenedBy i s.2 led ∧ e.seq = Ledger.nextSeq (s.1.mem led)
    | _ => True

/-- What thread `i` relies on: the others leave its instances alone. -/
def LeavesOwn (i : ℕ) (s s' : Directory) : Prop :=
  ∀ led, OpenedBy i s.2 led → OpenedBy i s'.2 led ∧ s'.1.mem led = s.1.mem led

theorem LeavesOwn.refl (i : ℕ) (s : Directory) : LeavesOwn i s s := fun _ opened => ⟨opened, rfl⟩

theorem LeavesOwn.trans (i : ℕ) (s₁ s₂ s₃ : Directory) (first : LeavesOwn i s₁ s₂)
    (second : LeavesOwn i s₂ s₃) : LeavesOwn i s₁ s₃ := by
  intro led opened
  obtain ⟨opened', mem⟩ := first led opened
  obtain ⟨opened'', mem'⟩ := second led opened'
  exact ⟨opened'', mem'.trans mem⟩

/-- What a command knows is so: its instances are those it opened, and what it read of one
is what that holds. -/
structure Informed (i : ℕ) (s : Directory) (k : Knows) : Prop where
  own : ∀ led ∈ k.own, OpenedBy i s.2 led
  read : ∀ led es, k.read led = some es → OpenedBy i s.2 led ∧ es = s.1.mem led

theorem Informed.moved {s s' : Directory} {k : Knows} (informed : Informed i s k)
    (moved : LeavesOwn i s s') : Informed i s' k where
  own led member := (moved led (informed.own led member)).1
  read led es known := by
    obtain ⟨opened, rfl⟩ := informed.read led es known
    exact ⟨(moved led opened).1, (moved led opened).2.symm⟩

/-- A call that opens no instance, reads none and writes to none. -/
theorem Informed.aside {s : Directory} {k : Knows} {op : Op} {answer : sig.Ans op}
    (informed : Informed i s k) (mem : (s.1.after op answer).mem = s.1.mem) :
    Informed i (s.1.after op answer, (i, ⟨op, answer⟩) :: s.2) k where
  own led member := List.mem_cons_of_mem _ (informed.own led member)
  read led es known := by
    obtain ⟨opened, rfl⟩ := informed.read led es known
    exact ⟨List.mem_cons_of_mem _ opened, (congrFun mem led).symm⟩

/-- Its own call tells the command what it tells. -/
theorem Informed.next {s : Directory} {k : Knows} {op : Op} {answer : sig.Ans op}
    (informed : Informed i s k) (allowed : (interp host).allowed s.1 op answer)
    (stamped : Stamped Op.any k op answer) :
    Informed i (s.1.after op answer, (i, ⟨op, answer⟩) :: s.2) (k.after op answer) := by
  cases op with
  | openLedger =>
      rcases answer with error | led
      · exact informed.aside rfl
      refine ⟨fun led' member => ?_, fun led' es known => ?_⟩
      · rcases List.mem_cons.1 member with rfl | before
        · exact List.mem_cons_self ..
        · exact List.mem_cons_of_mem _ (informed.own led' before)
      · rcases eq_or_ne led' led with rfl | different
        · rw [show (k.after .openLedger (.ok led')).read led' = none from Function.update_self ..]
            at known
          cases known
        · rw [show (k.after .openLedger (.ok led)).read led' = k.read led' from
            Function.update_of_ne different ..] at known
          obtain ⟨opened, rfl⟩ := informed.read led' es known
          exact ⟨List.mem_cons_of_mem _ opened, (Function.update_of_ne different ..).symm⟩
  | entries led =>
      obtain rfl : answer = s.1.mem led := allowed
      refine ⟨fun led' member => List.mem_cons_of_mem _ (informed.own led' member),
        fun led' es known => ?_⟩
      rcases eq_or_ne led' led with rfl | different
      · rw [show (k.after (.entries led') (s.1.mem led')).read led' = some (s.1.mem led') from
          Function.update_self ..] at known
        cases known
        exact ⟨List.mem_cons_of_mem _ (informed.own led' stamped.2), rfl⟩
      · rw [show (k.after (.entries led) (s.1.mem led)).read led' = k.read led' from
          Function.update_of_ne different ..] at known
        obtain ⟨opened, rfl⟩ := informed.read led' es known
        exact ⟨List.mem_cons_of_mem _ opened, rfl⟩
  | append led e =>
      refine ⟨fun led' member => List.mem_cons_of_mem _ (informed.own led' member),
        fun led' es known => ?_⟩
      rcases eq_or_ne led' led with rfl | different
      · rw [show (k.after (.append led' e) answer).read led' = none from Function.update_self ..]
          at known
        cases known
      · rw [show (k.after (.append led e) answer).read led' = k.read led' from
          Function.update_of_ne different ..] at known
        obtain ⟨opened, rfl⟩ := informed.read led' es known
        refine ⟨List.mem_cons_of_mem _ opened, ?_⟩
        cases answer with
        | ok => exact (Function.update_of_ne different ..).symm
        | lost error => rfl
        | kept error => rfl
  | _ => exact informed.aside (s.1.after_mem answer nofun nofun)

/-- A command verified by its calls alone keeps its promise among the others. -/
theorem wp_stamped {P : Op → Prop} {rely : Directory → Directory → Prop} {p : Prog Unit}
    {s : Directory} {later : ℕ → Directory} (leaves : ∀ s s', rely s s' → LeavesOwn i s s')
    (stamps : Stamps P [] p) :
    wp ((threads host cond i).among rely) (OwnStamped P i).alone (fun _ _ => True) p (s, later) := by
  have nothing : Informed i s ⟨[], fun _ => none⟩ := ⟨nofun, nofun⟩
  have step : ∀ (σ : Directory × (ℕ → Directory)) (k : Knows) (op : Op) (answer : op.Ans),
      Informed i σ.1 k → ((threads host cond i).among rely).allowed σ op answer →
        knowing.allowed k op answer ∧ (Stamped P k op answer →
          (OwnStamped P i).alone σ op answer ∧
            Informed i (((threads host cond i).among rely).next σ op answer).1
              (knowing.next k op answer)) := by
    rintro ⟨s, later⟩ k op answer informed ⟨⟨allowed, -⟩, moved⟩
    refine ⟨trivial, fun stamped => ⟨⟨stamped.1, ?_⟩, ?_⟩⟩
    · have numbered := stamped.2
      cases op with
      | append led e =>
          obtain ⟨-, es, known, seq⟩ := numbered
          obtain ⟨opened, rfl⟩ := informed.read led es known
          exact ⟨opened, seq⟩
      | _ => trivial
    · have next := informed.next allowed ⟨trivial, stamped.2⟩
      exact next.moved (leaves _ _ moved)
  have started := wp_simulates (I := (threads host cond i).among rely)
    (G := (OwnStamped P i).alone) (R := fun σ k => Informed i σ.1 k) (w := (s, later)) nothing step
    (stamps ⟨[], fun _ => none⟩ (List.nil_subset _))
  exact wp_mono started fun _ _ _ => trivial

/-- An append to one's own instance leaves the others'. -/
theorem leavesOwn_of_stamped {P : Op → Prop} {j : ℕ} {s : Directory} {op : Op} {answer : sig.Ans op}
    (different : i ≠ j) (tracked : Tracked s) (allowed : (interp host).allowed s.1 op answer)
    (promised : OwnStamped P i s op answer) :
    LeavesOwn j s (s.1.after op answer, (i, ⟨op, answer⟩) :: s.2) := by
  intro led opened
  refine ⟨List.mem_cons_of_mem _ opened, ?_⟩
  cases op with
  | openLedger =>
      rcases answer with error | led'
      · rfl
      · obtain rfl : led' = s.1.fresh := allowed
        exact Function.update_of_ne (Nat.ne_of_lt (tracked.given j led opened)) ..
  | append led' e =>
      have other : led ≠ led' := by
        rintro rfl
        exact different (tracked.once i j led promised.2.1 opened)
      cases answer with
      | ok => exact Function.update_of_ne other ..
      | lost error => rfl
      | kept error => rfl
  | _ => exact congrFun (s.1.after_mem answer nofun nofun) led

end

/-! ## Whole interleavings -/

/-- The entries are numbered upwards. -/
def Numbered (entries : List Entry) : Prop := (entries.map Entry.seq).Pairwise (· < ·)

theorem Numbered.append {entries : List Entry} {e : Entry} (numbered : Numbered entries)
    (next : e.seq = Ledger.nextSeq entries) : Numbered (entries ++ [e]) := by
  rw [Numbered, List.map_append, List.pairwise_append]
  refine ⟨numbered, List.pairwise_singleton .., fun n member m last => ?_⟩
  obtain rfl := List.mem_singleton.1 last
  rcases entries.eq_nil_or_concat with rfl | ⟨front, final, rfl⟩
  · cases member
  rw [List.concat_eq_append] at numbered next member
  have below : n ≤ final.seq := by
    rw [Numbered, List.map_append, List.pairwise_append] at numbered
    rw [List.map_append] at member
    rcases List.mem_append.1 member with before | here
    · exact Nat.le_of_lt (numbered.2.2 n before final.seq (List.mem_singleton_self _))
    · exact Nat.le_of_eq (List.mem_singleton.1 here)
  have seq : e.seq = final.seq + 1 := by
    rw [next, Ledger.nextSeq, List.getLast?_concat]
  omega

section

variable {host : Host} {cond : Guarantee sig Directory} {commands : List Command}
  {pool : Pool sig Error Unit} {s : Directory}

theorem tracked_blank : Tracked (World.blank, []) := ⟨nofun, nofun, nofun, nofun⟩

theorem command_safe (i : ℕ) (p : Prog Unit) (s : Directory)
    (started : (commands.map (Command.perform host))[i]? = some p) :
    Pool.Safe (threads host cond) LeavesOwn (OwnStamped Op.any) i p s := by
  rw [List.getElem?_map] at started
  rcases command : commands[i]? with _ | c <;> rw [command] at started
  · cases started
  cases started
  exact fun s' later _ => wp_stamped (fun _ _ leaves => leaves) (stamps_command c)

/-- What is left of each command numbers its entries, and the log tells what its instances
hold. -/
theorem Interleaves.safe (run : Interleaves host cond commands pool s) :
    Tracked s ∧ ∀ i p, pool[i]? = some p →
      Pool.Safe (threads host cond) LeavesOwn (OwnStamped Op.any) i p s :=
  Pool.safe_all LeavesOwn.refl LeavesOwn.trans tracked_blank
    (fun i p started => command_safe i p _ started)
    (fun _ _ _ _ allowed _ tracked => tracked_next allowed.1 tracked)
    (fun _ _ _ _ _ different tracked allowed promised =>
      leavesOwn_of_stamped different tracked allowed.1 promised) run

/-- An append is numbered after the last entry its instance holds. -/
theorem Interleaves.append (run : Interleaves host cond commands pool s) {i : ℕ} {led : Handle}
    {e : Entry} {next : AppendAnswer → Prog Unit}
    (turn : pool[i]? = some (.call (.append led e) next))
    (meets : cond s (.append led e) .ok) :
    OpenedBy i s.2 led ∧ e.seq = Ledger.nextSeq (s.1.mem led) := by
  have allowed : (threads host cond i).allowed s (.append led e) AppendAnswer.ok := ⟨trivial, meets⟩
  exact ((run.safe.2 i _ turn).step LeavesOwn.refl allowed).1.2

theorem Tracked.current_iff {i : ℕ} {led : Handle} (tracked : Tracked s)
    (opened : OpenedBy i s.2 led) : s.1.mem led = s.1.ledger ↔ SoleWriter led s.2 := by
  refine ⟨fun same => ?_, tracked.current i led opened⟩
  by_contra behind
  have less := tracked.behind i led opened behind
  rw [same] at less
  exact Nat.lt_irrefl _ less

/-- Where every append is the sole writer's, the file is numbered upwards. -/
theorem Interleaves.numbered (run : Interleaves host AppendsAlone commands pool s) :
    Numbered s.1.ledger := by
  have keeps : ∀ i, Keeps (threads host AppendsAlone i) (OwnStamped Op.any i)
      fun s => Tracked s ∧ Numbered s.1.ledger := by
    rintro i s op answer ⟨allowed, alone⟩ promised ⟨tracked, numbered⟩
    refine ⟨tracked_next allowed tracked, ?_⟩
    cases op with
    | append led e =>
        obtain ⟨-, opened, seq⟩ := promised
        have grown : Numbered (s.1.ledger ++ [e]) :=
          numbered.append (tracked.current i led opened alone ▸ seq)
        cases answer with
        | ok => exact grown
        | lost error => exact numbered
        | kept error => exact grown
    | _ =>
        have same := s.1.after_ledger answer nofun
        exact same ▸ numbered
  exact (Pool.safe_all LeavesOwn.refl LeavesOwn.trans ⟨tracked_blank, .nil⟩
    (fun i p started => command_safe i p _ started) keeps
    (fun _ _ _ _ _ different inv allowed promised =>
      leavesOwn_of_stamped different inv.1 allowed.1 promised) run).1.2

end

/-- **When an append is made on the complete log.**  In every interleaving of commands on
one directory, whatever they are answered: whoever is about to append numbers its entry
after the last one its instance holds, and the instance holds exactly what is on file if
and only if it is the sole writer since it was opened.  And in every interleaving in which
each append is the sole writer's, the file is numbered upwards. -/
theorem appends_on_complete_log (host : Host) (commands : List Command) :
    (∀ pool s, Interleaves host (fun _ _ _ => True) commands pool s →
      ∀ (i : ℕ) led e next, pool[i]? = some (.call (.append led e) next) →
        e.seq = Ledger.nextSeq (s.1.mem led) ∧
          (s.1.mem led = s.1.ledger ↔ SoleWriter led s.2)) ∧
    ∀ pool s, Interleaves host AppendsAlone commands pool s →
      (s.1.ledger.map Entry.seq).Pairwise (· < ·) := by
  refine ⟨fun pool s run i led e next turn => ?_, fun pool s run => run.numbered⟩
  obtain ⟨opened, seq⟩ := run.append turn trivial
  exact ⟨seq, run.safe.1.current_iff opened⟩

/-! ## A payment beside the daemon -/

/-- Each thread is answered from the script, and the call is logged. -/
def scripted (script : Script) (i : ℕ) (op : Op) (s : Directory) : op.Ans × Directory :=
  (script.answer walletHost s.1 op, (s.1.after op (script.answer walletHost s.1 op),
    (i, ⟨op, script.answer walletHost s.1 op⟩) :: s.2))

/-- A daemon with one buyer, and a payment. -/
def daemonAndPayment : List Command :=
  [.serve [.session [.addrRequest 1000] (.ok ())], .payment (.sendPayment sampleAddress.display 40000)]

/-- The two commands, given turns in this order; a call that may not be made yet waits. -/
def together (may : ℕ → Op → Directory → Bool) (schedule : List ℕ) :
    Pool sig Error Unit × Directory :=
  Pool.drive may (scripted walletScript) schedule (daemonAndPayment.map (Command.perform walletHost))
    (World.blank, [])

theorem together_interleaves {cond : Guarantee sig Directory} {may : ℕ → Op → Directory → Bool}
    (meets : ∀ i op s, may i op s = true → cond s op (walletScript.answer walletHost s.1 op))
    (schedule : List ℕ) :
    Interleaves walletHost cond daemonAndPayment (together may schedule).1
      (together may schedule).2 := by
  have steps := @Pool.drive_steps sig Directory Error Unit (threads walletHost cond) may
    (scripted walletScript) (fun i op s free => ⟨walletScript.allowed walletHost s.1 op, meets i op s free⟩)
    (fun _ _ _ => rfl) schedule (daemonAndPayment.map (Command.perform walletHost)) (World.blank, [])
  exact steps

/-- Any call may be made. -/
def mayAll (_ : ℕ) (_ : Op) (_ : Directory) : Bool := true

/-- An append may be made by the sole writer. -/
def mayAlone (_ : ℕ) (op : Op) (s : Directory) : Bool :=
  match op with
  | .append led _ => decide (SoleWriter led s.2)
  | _ => true

/-- The daemon opens the ledger, and the payment is made; then the daemon gives out an
address. -/
def payThenServe (turns : ℕ) : List ℕ := [0] ++ List.replicate 20 1 ++ List.replicate turns 0

/-- The daemon appends on an instance that lacks the payment, and gives its entry the number
the payment has. -/
theorem stale_append :
    (∃ pool s next, Interleaves walletHost (fun _ _ _ => True) daemonAndPayment pool s ∧
      pool[0]? = some (.call (.append 0 (.addressIssued 0 0)) next) ∧
      s.1.mem 0 = [] ∧ s.1.ledger.map Entry.sentTxid? = [some sampleTxid]) ∧
    ∃ pool s, Interleaves walletHost (fun _ _ _ => True) daemonAndPayment pool s ∧
      s.1.ledger.map Entry.seq = [0, 0] := by
  have run := @together_interleaves (fun _ _ _ => True) mayAll fun _ _ _ _ => trivial
  constructor
  · obtain ⟨next, turn⟩ := @Pool.exists_turn sig Error Unit (together mayAll (payThenServe 2)).1
      0 (.append 0 (.addressIssued 0 0)) (by decide +kernel)
    exact ⟨_, _, next, run (payThenServe 2), turn, by decide +kernel, by decide +kernel⟩
  · exact ⟨_, _, run (payThenServe 3), by decide +kernel⟩

/-- One after the other, each appends on the complete log. -/
theorem appends_on_complete_log_sample :
    (together mayAll (List.replicate 12 1)).2.1.mem 0 =
      (together mayAll (List.replicate 12 1)).2.1.ledger ∧
    (together mayAlone (List.replicate 20 1 ++ List.replicate 4 0)).2.1.ledger.map Entry.seq =
      [0, 1] ∧
    ((together mayAlone (List.replicate 20 1 ++ List.replicate 4 0)).2.1.ledger.map
      Entry.seq).Pairwise (· < ·) := by
  have result := appends_on_complete_log walletHost daemonAndPayment
  refine ⟨?_, by decide +kernel, ?_⟩
  · obtain ⟨next, turn⟩ := @Pool.exists_turn sig Error Unit
      (together mayAll (List.replicate 12 1)).1 1
      (.append 0 (.sent 0 sampleTxid 40000 sampleAddress.display .pending 1700000000))
      (by decide +kernel)
    have run := @together_interleaves (fun _ _ _ => True) mayAll (fun _ _ _ _ => trivial)
      (List.replicate 12 1)
    exact (result.1 _ _ run 1 0 _ next turn).2.2 (by decide +kernel)
  · refine result.2 _ _ (together_interleaves (fun i op s free => ?_) _)
    cases op with
    | append led e =>
        have alone : SoleWriter led s.2 := of_decide_eq_true free
        exact alone
    | _ => trivial

end ComputerMoney.Safety
