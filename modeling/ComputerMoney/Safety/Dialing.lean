/-
# Safety.Dialing -- how long a dial takes, what it sends, and why it fails

`FramedTunnel::connect` sends one initiation and is patient: it never retransmits, and no
slice that finds nothing, and no datagram upon which `process` sends nothing back, ends its wait
before the budget is spent.  `connect_bounded` says so of every run, cut anywhere: the socket
never sees more than the initiation and one datagram after it, and the clock never passes the
budget by more than one slice.  The reading is the prompt one: only the reads take time.

That one datagram is whatever `process` first sends back, and it ends the wait.  Upon the response
it is a keepalive; but an initiation of the peer's own is answered too, and is taken for the
response.
-/
import ComputerMoney.Kernel.Handshake

namespace ComputerMoney.Safety

set_option autoImplicit false

open Kernel Kernel.Tunnel Theory Theory.Program

namespace Dialing

/-- The kernel, and every call so far, the last first. -/
abbrev DialState := Deck × List (Event udp)

/-- What was sent, the last first. -/
def sends : List (Event udp) → List (List UInt8 × String)
  | [] => []
  | ⟨.sendTo datagram peer, _⟩ :: h => (datagram, peer) :: sends h
  | _ :: h => sends h

/-- What was read, the last first. -/
def received : List (Event udp) → List (List UInt8)
  | [] => []
  | ⟨.recvFrom, ⟨_, .datagram data _⟩⟩ :: h => data.take recvBuffer :: received h
  | _ :: h => received h

def reads (h : List (Event udp)) : ℕ := h.countP fun event => event.1 = .recvFrom

/-- A call that failed with this error. -/
def FailedCall (e : Error) (event : Event udp) : Prop :=
  (∃ nanos, event = ⟨.setReadTimeout nanos, .error e⟩) ∨
    (∃ datagram peer, event = ⟨.sendTo datagram peer, .error e⟩) ∨
      ∃ nanos, event = ⟨.recvFrom, ⟨nanos, .failed e⟩⟩

section

variable (wg : Wg)

/-- Upon none of these does the tunnel, which reads one after the other, send anything back. -/
def Refuses : wg.Tunn → List (List UInt8) → Prop
  | _, [] => True
  | tun, data :: datagrams =>
      (∀ out, (process wg.toNoise tun data).1 ≠ .ok (.sendBack out)) ∧
        Refuses (process wg.toNoise tun data).2 datagrams

/-- Upon the last of these the tunnel sends this back, and upon none before it anything. -/
def Answers (tun : wg.Tunn) (datagrams : List (List UInt8)) (keepalive : List UInt8) : Prop :=
  match datagrams with
  | [] => False
  | data :: datagrams =>
      ((process wg.toNoise tun data).1 = .ok (.sendBack keepalive) ∧ datagrams = []) ∨
        ((∀ out, (process wg.toNoise tun data).1 ≠ .ok (.sendBack out)) ∧
          Answers (process wg.toNoise tun data).2 datagrams keepalive)

end

/-- Not much past the deadline, and no more sent than the initiation and one datagram after it. -/
def Bounded (packet : Except Error (List UInt8)) (peer : String) (bound : ℕ) (s : DialState) : Prop :=
  s.1.clock ≤ bound ∧ match packet with
    | .ok init => ∃ keepalive, sends s.2 <:+ [(keepalive, peer), (init, peer)]
    | .error _ => sends s.2 = []

def timedOut : Error := "handshake timed out: peer did not respond"

/-- How a wait that began with the calls `h` ends. -/
def Outcome (wg : Wg) (init : List UInt8) (peer : String) (deadline n : ℕ) (tun : wg.Tunn)
    (h : List (Event udp)) : Except Error wg.Tunn → DialState → Prop
  | .ok _, s => s.1.timeout = recvTimeout ∧ ∃ keepalive new,
      sends s.2 = [(keepalive, peer), (init, peer)] ∧
        received s.2 = received new ++ received h ∧
          Answers wg tun (received new).reverse keepalive
  | .error e, s => (∃ event ∈ s.2, FailedCall e event) ∨
      (e = "cut short" ∧ reads s.2 = n + reads h) ∨
        (e = timedOut ∧ deadline ≤ s.1.clock ∧
          ∃ new, s.2 = new ++ h ∧ Refuses wg tun (received new).reverse)

/-! ## The wait -/

section Wait

variable {wg : Wg} {tun tun' : wg.Tunn} {init : List UInt8} {peer : String} {deadline n : ℕ}
  {d : Deck} {h : List (Event udp)}

theorem received_append (new : List (Event udp)) : received (new ++ h) = received new ++ received h := by
  induction new with
  | nil => rfl
  | cons event new ih =>
      obtain ⟨op, answer⟩ := event
      cases op with
      | recvFrom =>
          obtain ⟨nanos, got⟩ := answer
          cases got with
          | datagram data source => exact congrArg (_ :: ·) ih
          | idle | failed => exact ih
      | instant | setReadTimeout | tryClone | sendTo => exact ih

/-- A slice after which the tunnel still waits. -/
theorem Outcome.later {event event' : Event udp} {result : Except Error wg.Tunn} {s : DialState}
    (outcome : Outcome wg init peer deadline n tun' (event' :: event :: h) result s)
    (counts : reads (event' :: event :: h) = reads h + 1)
    (refuses : ∀ datagrams, Refuses wg tun' datagrams →
      Refuses wg tun ((received [event', event]).reverse ++ datagrams))
    (answers : ∀ datagrams keepalive, Answers wg tun' datagrams keepalive →
      Answers wg tun ((received [event', event]).reverse ++ datagrams) keepalive) :
    Outcome wg init peer deadline (n + 1) tun h result s := by
  cases result with
  | ok tun'' =>
      obtain ⟨long, keepalive, new, two, is, answered⟩ := outcome
      refine ⟨long, keepalive, new ++ [event', event], two, ?_, ?_⟩
      · have split : received (event' :: event :: h) = received [event', event] ++ received h :=
          received_append [event', event]
        rw [is, split, received_append, List.append_assoc]
      · rw [received_append, List.reverse_append]
        exact answers _ _ answered
  | error e =>
      rcases outcome with failed | ⟨is, counted⟩ | ⟨is, spent, new, same, refused⟩
      · exact .inl failed
      · exact .inr (.inl ⟨is, by omega⟩)
      · refine .inr (.inr ⟨is, spent, new ++ [event', event], ?_, ?_⟩)
        · rw [same, List.append_assoc]
          rfl
        · rw [received_append, List.reverse_append]
          exact refuses _ refused

/-- The look at the clock after a slice. -/
theorem wp_look {event : Event udp} (late : d.clock ≤ deadline + handshakePoll)
    (one : sends (event :: h) = [(init, peer)])
    (counts : reads (event :: h) = reads h + 1)
    (refuses : ∀ datagrams, Refuses wg tun' datagrams →
      Refuses wg tun ((received [event]).reverse ++ datagrams))
    (answers : ∀ datagrams keepalive, Answers wg tun' datagrams keepalive →
      Answers wg tun ((received [event]).reverse ++ datagrams) keepalive)
    (goesOn : ∀ h, sends h = [(init, peer)] → d.clock < deadline →
      wp (udpInterp True).recorded (fun s op answer => Bounded (.ok init) peer (deadline + handshakePoll)
        ((udpInterp True).recorded.next s op answer)) (Outcome wg init peer deadline n tun' h)
        (awaitResponse wg peer deadline n tun') (d, h)) :
    wp (udpInterp True).recorded (fun s op answer => Bounded (.ok init) peer (deadline + handshakePoll)
      ((udpInterp True).recorded.next s op answer)) (Outcome wg init peer deadline (n + 1) tun h)
      (instant >>= fun now => if deadline ≤ now then .throw timedOut
        else awaitResponse wg peer deadline n tun') (d, event :: h) := by
  intro now passed
  obtain rfl : now = d.clock := passed.2 trivial
  have one' : sends (⟨.instant, d.clock⟩ :: event :: h) = [(init, peer)] := one
  refine ⟨⟨late, [], one'.symm ▸ List.suffix_cons ..⟩, ?_⟩
  have counts' : reads (⟨.instant, d.clock⟩ :: event :: h) = reads h + 1 := counts
  show wp _ _ _ (if deadline ≤ d.clock then _ else _) _
  split
  case isTrue spent =>
      refine .inr (.inr ⟨rfl, spent, [⟨.instant, d.clock⟩, event], rfl, ?_⟩)
      have none := refuses [] trivial
      rwa [List.append_nil] at none
  case isFalse early =>
      refine wp_mono (goesOn _ one' (Nat.lt_of_not_le early)) fun result s outcome => ?_
      exact outcome.later counts' refuses answers

/-- The answer that ends the wait. -/
theorem wp_confirm {keepalive : List UInt8} {waited : ℕ} {data : List UInt8} {source : String}
    (late : d.clock ≤ deadline + handshakePoll)
    (one : sends (⟨.recvFrom, ⟨waited, .datagram data source⟩⟩ :: h) = [(init, peer)])
    (opened : (process wg.toNoise tun (data.take recvBuffer)).1 = .ok (.sendBack keepalive)) :
    wp (udpInterp True).recorded (fun s op answer => Bounded (.ok init) peer (deadline + handshakePoll)
      ((udpInterp True).recorded.next s op answer)) (Outcome wg init peer deadline n tun h)
      (sendTo keepalive peer >>= fun _ => setReadTimeout recvTimeout >>= fun _ => .pure tun')
      (d, ⟨.recvFrom, ⟨waited, .datagram data source⟩⟩ :: h) := by
  intro sent _
  have two : sends (⟨.sendTo keepalive peer, sent⟩ ::
      ⟨.recvFrom, ⟨waited, .datagram data source⟩⟩ :: h) = [(keepalive, peer), (init, peer)] :=
    congrArg (_ :: ·) one
  refine ⟨⟨late, keepalive, two ▸ List.suffix_rfl⟩, ?_⟩
  obtain e | ⟨⟨⟩⟩ := sent
  · exact .inl ⟨_, List.mem_cons_self .., .inr (.inl ⟨_, _, rfl⟩)⟩
  intro raised _
  refine ⟨⟨?_, keepalive, two ▸ List.suffix_rfl⟩, ?_⟩
  · cases raised <;> exact late
  obtain e | ⟨⟨⟩⟩ := raised
  · exact .inl ⟨_, List.mem_cons_self .., .inl ⟨_, rfl⟩⟩
  · exact ⟨rfl, keepalive, [⟨.recvFrom, ⟨waited, .datagram data source⟩⟩], two, rfl,
      .inl ⟨opened, rfl⟩⟩

theorem wp_awaitResponse (early : d.clock < deadline) (slice : d.timeout = handshakePoll)
    (one : sends h = [(init, peer)]) :
    wp (udpInterp True).recorded (fun s op answer => Bounded (.ok init) peer (deadline + handshakePoll)
      ((udpInterp True).recorded.next s op answer)) (Outcome wg init peer deadline n tun h)
      (awaitResponse wg peer deadline n tun) (d, h) := by
  induction n generalizing d h tun with
  | zero => exact .inr (.inl ⟨rfl, (Nat.zero_add _).symm⟩)
  | succ n ih =>
      intro waited allowed
      have late : d.clock + waited.nanos ≤ deadline + handshakePoll := by
        have short := allowed.1
        rw [slice] at short
        omega
      have one' : sends (⟨.recvFrom, waited⟩ :: h) = [(init, peer)] := one
      refine ⟨⟨late, [], one'.symm ▸ List.suffix_cons ..⟩, ?_⟩
      have counts : reads (⟨.recvFrom, waited⟩ :: h) = reads h + 1 :=
        List.countP_cons_of_pos rfl
      obtain ⟨nanos, got⟩ := waited
      cases got with
      | failed e => exact .inl ⟨_, List.mem_cons_self .., .inr (.inr ⟨nanos, rfl⟩)⟩
      | idle =>
          exact wp_look late one' counts (fun _ same => same) (fun _ _ same => same)
            fun h one early => ih early slice one
      | datagram data source =>
          dsimp only [Program.bind]
          split
          case h_1 keepalive tun' opened =>
              exact wp_confirm late one' (congrArg Prod.fst opened)
          case h_2 step tun' still opened =>
              have dropped : ∀ out,
                  (process wg.toNoise tun (data.take recvBuffer)).1 ≠ .ok (.sendBack out) := by
                intro out is
                rw [opened] at is
                exact still out is
              have left : (process wg.toNoise tun (data.take recvBuffer)).2 = tun' :=
                congrArg Prod.snd opened
              refine wp_look late one' counts (fun datagrams refused => ⟨dropped, ?_⟩)
                (fun datagrams keepalive answered => .inr ⟨dropped, ?_⟩)
                fun h one early => ih early slice one
              · rwa [left]
              · rwa [left]

end Wait

/-- How a dial that began at `start` ends. -/
def Ends (wg : Wg) (secret peerPub : List UInt8) (peer : String) (n start : ℕ) :
    Except Error wg.Tunn → DialState → Prop
  | .ok _, s => s.1.timeout = recvTimeout ∧ ∃ init keepalive,
      (handshakeInit wg (wg.new secret peerPub)).1 = .ok init ∧
        sends s.2 = [(keepalive, peer), (init, peer)] ∧
          Answers wg (handshakeInit wg (wg.new secret peerPub)).2 (received s.2).reverse keepalive
  | .error e, s => (∃ event ∈ s.2, FailedCall e event) ∨
      (handshakeInit wg (wg.new secret peerPub)).1 = .error e ∨
        (e = "cut short" ∧ reads s.2 = n) ∨
          (e = timedOut ∧ start + handshakeBudget ≤ s.1.clock ∧
            Refuses wg (handshakeInit wg (wg.new secret peerPub)).2 (received s.2).reverse)

theorem wp_connect (wg : Wg) (secret peerPub : List UInt8) (peer : String) (n : ℕ) (d : Deck) :
    wp (udpInterp True).recorded
      (fun s op answer => Bounded (handshakeInit wg (wg.new secret peerPub)).1 peer
        (d.clock + handshakeBudget + handshakePoll)
        ((udpInterp True).recorded.next s op answer))
      (Ends wg secret peerPub peer n d.clock) (connect wg secret peerPub peer n) (d, []) := by
  have early : d.clock < d.clock + handshakeBudget := Nat.lt_add_of_pos_right (by decide)
  have late : d.clock ≤ d.clock + handshakeBudget + handshakePoll := by omega
  unfold connect Ends
  generalize handshakeInit wg (wg.new secret peerPub) = start
  obtain ⟨packet, tun⟩ := start
  intro slice _
  refine ⟨⟨?_, ?_⟩, ?_⟩
  · cases slice <;> exact late
  · cases packet with
    | ok init => exact ⟨[], List.nil_suffix⟩
    | error e => rfl
  obtain e | ⟨⟨⟩⟩ := slice
  · exact .inl ⟨_, List.mem_cons_self .., .inl ⟨_, rfl⟩⟩
  cases packet with
  | error e => exact .inr (.inl rfl)
  | ok init =>
      intro sent _
      refine ⟨⟨late, [], List.suffix_cons ..⟩, ?_⟩
      obtain e | ⟨⟨⟩⟩ := sent
      · exact .inl ⟨_, List.mem_cons_self .., .inr (.inl ⟨_, _, rfl⟩)⟩
      intro now passed
      obtain rfl : now = d.clock := passed.2 trivial
      refine ⟨⟨late, [], List.suffix_cons ..⟩, ?_⟩
      refine wp_mono (wp_awaitResponse early rfl rfl) ?_
      rintro (e | tun') s outcome
      · rcases outcome with failed | ⟨is, counted⟩ | ⟨is, spent, new, same, refused⟩
        · exact .inl failed
        · exact .inr (.inr (.inl ⟨is, counted⟩))
        · refine .inr (.inr (.inr ⟨is, spent, ?_⟩))
          rw [same, received_append]
          show Refuses wg tun (received new ++ []).reverse
          rwa [List.append_nil]
      · obtain ⟨long, keepalive, new, two, same, answered⟩ := outcome
        refine ⟨long, init, keepalive, rfl, two, ?_⟩
        rw [same]
        show Answers wg tun (received new ++ []).reverse keepalive
        rwa [List.append_nil]

/-- A slice with nothing, a datagram of another stack, then the response. -/
def arriving (timeout : ℕ) : ℕ → Waited
  | 0 => ⟨timeout, .idle⟩
  | 1 => ⟨0, .datagram [0, 0] "192.0.2.1:53"⟩
  | _ => ⟨0, .datagram (2 :: List.replicate 91 0) "203.0.113.5:51820"⟩

theorem arriving_waits (timeout n : ℕ) : (arriving timeout n).nanos ≤ timeout ∧
    ((arriving timeout n).got = .idle → (arriving timeout n).nanos = timeout) := by
  unfold arriving
  split <;> simp

def answering (s : DialState) : (op : udp.Op) → udp.Ans op
  | .instant => (s.1.clock : ℕ)
  | .setReadTimeout _ | .tryClone | .sendTo _ _ => .ok ()
  | .recvFrom => arriving s.1.timeout (reads s.2)

def answeringHandle (op : udp.Op) (s : DialState) : udp.Ans op × DialState :=
  (answering s op, (udpInterp True).recorded.next s op (answering s op))

theorem answering_allowed (op : udp.Op) (s : DialState) :
    (udpInterp True).recorded.allowed s op (answering s op) := by
  cases op with
  | instant => exact ⟨le_rfl, fun _ => rfl⟩
  | recvFrom => exact arriving_waits _ _
  | setReadTimeout | tryClone | sendTo => trivial

def answered : Except Error Unit × DialState :=
  run answeringHandle (connect .sample [] [] "203.0.113.5:51820" 5) (⟨0, 0⟩, [])

theorem answered_is : answered.1 = .ok () ∧ answered.2.1.clock = handshakePoll ∧
    sends answered.2.2 = [(4 :: List.replicate 31 0, "203.0.113.5:51820"),
      (1 :: List.replicate 147 0, "203.0.113.5:51820")] := by
  decide +kernel

end Dialing

open Dialing

/-- **A dial is bounded and patient.**  Wherever a run is cut, the clock has not passed the
budget by more than one slice, and nothing was sent but one initiation and at most one datagram
after it.  A run that returns sent what `process` sends back upon the last datagram that it read,
which sent nothing back upon those before; one that fails had a call fail, or waited the whole
budget and read nothing upon which anything is sent back. -/
theorem connect_bounded (wg : Wg) (secret peerPub : List UInt8) (peer : String) (n : ℕ) (d : Deck) :
    (∀ s, Reach (udpInterp True).recorded (connect wg secret peerPub peer n) (d, []) s →
      Bounded (handshakeInit wg (wg.new secret peerPub)).1 peer
        (d.clock + handshakeBudget + handshakePoll) s) ∧
    ∀ result s, Exec (udpInterp True).recorded (connect wg secret peerPub peer n) (d, []) result s →
      Ends wg secret peerPub peer n d.clock result s := by
  have holds := wp_connect wg secret peerPub peer n d
  refine ⟨fun s cut => ?_, fun result s run => wp_exec holds run⟩
  have keeps : Keeps (udpInterp True).recorded
      (fun s op answer => Bounded (handshakeInit wg (wg.new secret peerPub)).1 peer
        (d.clock + handshakeBudget + handshakePoll) ((udpInterp True).recorded.next s op answer))
      (Bounded (handshakeInit wg (wg.new secret peerPub)).1 peer
        (d.clock + handshakeBudget + handshakePoll)) := fun s op answer _ kept _ => kept
  refine wp_reach keeps ⟨?_, ?_⟩ holds cut
  · show d.clock ≤ _
    omega
  · split
    · exact ⟨[], List.nil_suffix⟩
    · rfl

theorem connect_bounded_answering : ∃ s : DialState, s.1.timeout = recvTimeout ∧
    s.1.clock = handshakePoll ∧ Answers .sample () (received s.2).reverse (4 :: List.replicate 31 0) := by
  have ran : Exec (udpInterp True).recorded (connect .sample [] [] "203.0.113.5:51820" 5)
      (⟨0, 0⟩, []) answered.1 answered.2 :=
    run_exec id _ _ answering_allowed fun _ _ => rfl
  have ends := (connect_bounded .sample [] [] "203.0.113.5:51820" 5 ⟨0, 0⟩).2 _ _ ran
  obtain ⟨returned, clock, sent⟩ := answered_is
  rw [returned] at ends
  obtain ⟨long, init, keepalive, -, two, answers⟩ := ends
  rw [sent] at two
  cases two
  exact ⟨_, long, clock, answers⟩

end ComputerMoney.Safety
