/-
# Safety.HeadBound -- how much of a stream the seller reads as a head

`read_headers` compares what it has with 8192 bytes, but only at the end of a line, and a line
is read however long it gets.  So the length of its lines is what bounds a head: a reader whose
lines stay within `L` bytes stops within `16384 + L` of them (`stopsWithin_of_linesWithin`), and
no other bound holds (`head_bounded_iff`).  A client that never ends its line is read for ever
(`endless_line_unbounded`); the timeout of the socket is one of a single read.
-/
import ComputerMoney.Kernel.HeadReader
import Mathlib.Data.Nat.Find

namespace ComputerMoney.Safety

set_option autoImplicit false

open Theory Kernel Kernel.HeadReader

namespace HeadBound

/-- `read_headers` returns, and by then has taken at most so many bytes from the socket. -/
def StopsWithin (limit : ℕ) (c : Client) : Prop :=
  ∃ k, StopsBy c k ∧ (c.sent k).length ≤ limit

/-- Every line that begins in an open front of the stream, which is within its first 8192 bytes
and before a blank line, has at most `limit` bytes before its newline. -/
def LinesWithin (limit : ℕ) (c : Client) : Prop :=
  ∀ (k : ℕ) (front line : List UInt8), c.sent k = front ++ line → Open front →
    Lines.newline ∉ line → line.length ≤ limit

section

variable {c : Client} {limit : ℕ}

/-! ## Short lines -/

/-- As long as bytes come, there is at least one from every read. -/
theorem le_length_sent {k : ℕ} (data : ∀ j < k, (c.sends j).isData = true) :
    k ≤ (c.sent k).length := by
  induction k with
  | zero => exact Nat.zero_le _
  | succ k ih =>
      have here := data k (Nat.lt_succ_self k)
      have before := ih fun j lt => data j (Nat.lt_succ_of_lt lt)
      rw [Client.sent_succ, List.length_append]
      match is : c.sends k with
      | .data first rest =>
          rw [SocketRead.bytes, List.length_cons]
          omega
      | .closed | .failed _ => rw [is] at here; cases here

/-- Whoever is still reading holds an open front and part of a line. -/
theorem length_sent_le (lines : LinesWithin limit c) {k : ℕ} (reads : ¬ StopsBy c k) :
    (c.sent k).length ≤ 8192 + limit := by
  have stands := after_of_data (data_of_reading reads)
  match is : after c k with
  | .stopped outcome =>
      refine absurd ?_ reads
      rw [StopsBy, is]
      rfl
  | .reading raw line =>
      rw [is] at stands
      obtain ⟨sent, open_, whole⟩ := foldl_feed_reading.1 stands.symm
      have short := lines k raw line sent open_ whole
      have small := open_.1
      rw [sent, List.length_append]
      omega

/-- **Lines of bounded length make a head of bounded length.**  The last read can bring a full
buffer more. -/
theorem stopsWithin_of_linesWithin (lines : LinesWithin limit c) :
    StopsWithin (16384 + limit) c := by
  have stops : ∃ k, StopsBy c k := by
    refine ⟨8192 + limit + 1, by_contra fun reads => ?_⟩
    have few := length_sent_le lines reads
    have many := le_length_sent (data_of_reading reads)
    omega
  classical
  refine ⟨Nat.find stops, Nat.find_spec stops, ?_⟩
  match is : Nat.find stops with
  | 0 => exact Nat.zero_le _
  | k + 1 =>
      have reads : ¬ StopsBy c k := Nat.find_min stops (by omega)
      have few := length_sent_le lines reads
      have last := c.capped k
      rw [Client.sent_succ, List.length_append]
      omega

/-! ## Bounded heads -/

/-- Nothing comes after the first read without data. -/
theorem notData_mono {j k : ℕ} (ended : (c.sends j).isData = false) (le : j ≤ k) :
    (c.sends k).isData = false := by
  induction k, le using Nat.le_induction with
  | base => exact ended
  | succ k _ ih => rw [c.ends k ih, ih]

/-- What was sent by any read was sent by one up to which data came. -/
theorem exists_data_sent (k : ℕ) :
    ∃ j, (∀ i < j, (c.sends i).isData = true) ∧ c.sent j = c.sent k := by
  induction k with
  | zero => exact ⟨0, nofun, rfl⟩
  | succ k ih =>
      by_cases data : (c.sends k).isData
      · refine ⟨k + 1, fun i lt => ?_, rfl⟩
        by_contra ended
        have later := notData_mono (Bool.eq_false_iff.2 ended) (Nat.le_of_lt_succ lt)
        rw [data] at later
        cases later
      · obtain ⟨j, before, same⟩ := ih
        refine ⟨j, before, ?_⟩
        have nothing : (c.sends k).bytes = [] := by
          match is : c.sends k with
          | .data .. => exact absurd (by rw [is]; rfl) data
          | .closed | .failed _ => rfl
        rw [Client.sent_succ, nothing, List.append_nil, same]

/-- A reader that stops within so many bytes has been sent no longer line. -/
theorem linesWithin_of_stopsWithin (stops : StopsWithin limit c) : LinesWithin limit c := by
  intro k front line sent open_ whole
  obtain ⟨m, stopped, few⟩ := stops
  obtain ⟨j, data, same⟩ := exists_data_sent k
  have stands : after c j = .reading front line := by
    rw [after_of_data data, foldl_feed_reading]
    exact ⟨same.trans sent, open_, whole⟩
  have later : j ≤ m := by
    by_contra before
    have stopped' : StopsBy c j := stopped.mono (Nat.le_of_lt (Nat.not_le.1 before))
    rw [StopsBy, stands] at stopped'
    cases stopped'
  have part := c.length_sent_mono later
  rw [same, sent, List.length_append] at part
  omega

end

end HeadBound

open HeadBound

/-- **A head is bounded exactly where its lines are.**  For every class of clients: there is one
number of bytes within which `read_headers` stops for all of them, if and only if there is one
for the lines that begin in the first 8192 bytes of a head. -/
theorem head_bounded_iff (clients : Client → Prop) :
    (∃ limit, ∀ c, clients c → StopsWithin limit c) ↔
      ∃ limit, ∀ c, clients c → LinesWithin limit c := by
  constructor
  · intro ⟨limit, stops⟩
    exact ⟨limit, fun c member => linesWithin_of_stopsWithin (stops c member)⟩
  · intro ⟨limit, lines⟩
    exact ⟨16384 + limit, fun c member => stopsWithin_of_linesWithin (lines c member)⟩

/-! ## A line without an end -/

namespace HeadBound

/-- One `a` after another. -/
def endlessLine : Client where
  sends _ := .data 97 []
  capped _ := by decide
  ends _ _ := rfl

end HeadBound

/-- No number of bytes is enough for every client, and this one is read for ever. -/
theorem endless_line_unbounded :
    (∀ k, ¬ StopsBy endlessLine k) ∧ ¬ ∃ limit, ∀ c : Client, StopsWithin limit c := by
  have reads : ∀ k, ¬ StopsBy endlessLine k := by
    intro k
    have line : endlessLine.sent k = List.replicate k 97 := by
      induction k with
      | zero => rfl
      | succ k ih => rw [Client.sent_succ, ih, List.replicate_succ']; rfl
    have whole : Lines.newline ∉ List.replicate k (97 : UInt8) := fun member =>
      absurd (List.eq_of_mem_replicate member) (by decide)
    have stands : after endlessLine k = .reading [] (List.replicate k 97) := by
      rw [after_of_data fun _ _ => rfl, foldl_feed_reading, line]
      exact ⟨rfl, ⟨Nat.zero_le _, [], rfl, nofun⟩, whole⟩
    rw [StopsBy, stands]
    exact Bool.false_ne_true
  refine ⟨reads, fun ⟨limit, stops⟩ => ?_⟩
  obtain ⟨k, stopped, -⟩ := stops endlessLine
  exact reads k stopped

end ComputerMoney.Safety
