/-
# Kernel.HeadReader -- read_headers, byte by byte

The seller reads a head from a socket whose client decides how many bytes come, when, and where
the lines end.  A `BufReader` asks for up to 8 KiB at a time; `read_line` takes bytes up to and
including a newline, however many they are, and only then are the line and what was read so far
looked at.  A head can therefore be followed byte by byte (`feed`): inside a line nothing stops
the reader but the end of the stream or a failed read.

On a stream of whole UTF-8 that ends, this is the `readHeaders` of the paywall, wherever the
reads are cut (`finish_feed`).
-/
import ComputerMoney.Kernel.Paywall
import ComputerMoney.Theory.Lines

namespace ComputerMoney.Kernel

set_option autoImplicit false

open Theory

/-! ## The client -/

/-- What one `read` of the socket returns: at least one byte, none because the client closed, or
an error, such as the timeout. -/
inductive SocketRead where
  | data (first : UInt8) (rest : List UInt8)
  | closed
  | failed (error : Error)

def SocketRead.bytes : SocketRead → List UInt8
  | .data first rest => first :: rest
  | .closed | .failed _ => []

def SocketRead.isData : SocketRead → Bool
  | .data .. => true
  | .closed | .failed _ => false

/-- A stream, finite or endless, as the reads of it return it. -/
structure Client where
  sends : ℕ → SocketRead
  /-- A buffer of 8 KiB. -/
  capped : ∀ k, (sends k).bytes.length ≤ 8192
  /-- Nothing comes after the end or a failure. -/
  ends : ∀ k, (sends k).isData = false → sends (k + 1) = sends k

namespace Client

variable (c : Client)

/-- What the first `k` reads return. -/
def sent (k : ℕ) : List UInt8 := (List.range k).flatMap fun j => (c.sends j).bytes

@[simp] theorem sent_succ (k : ℕ) : c.sent (k + 1) = c.sent k ++ (c.sends k).bytes := by
  simp [sent, List.range_succ]

theorem length_sent_mono {k m : ℕ} (le : k ≤ m) : (c.sent k).length ≤ (c.sent m).length := by
  induction m, le using Nat.le_induction with
  | base => exact Nat.le_refl _
  | succ m _ ih =>
      rw [sent_succ, List.length_append]
      omega

end Client

/-! ## The reader -/

namespace HeadReader

/-- `raw` and the line that is being read, or what `read_headers` returned. -/
inductive Reading where
  | reading (raw line : List UInt8)
  | stopped (outcome : Except Error (List UInt8))
  deriving DecidableEq

def start : Reading := .reading [] []

def Reading.isStopped : Reading → Bool
  | .reading .. => false
  | .stopped _ => true

def isBlank (line : List UInt8) : Bool :=
  line = [Lines.carriageReturn, Lines.newline] || line = [Lines.newline]

/-- `read_line` returns a line that is UTF-8; it is added, and then looked at. -/
def endLine (raw line : List UInt8) : Reading :=
  if (Lines.text? line).isSome then
    if isBlank line then .stopped (.ok (raw ++ line))
    else if 8192 < (raw ++ line).length then .stopped (.ok (raw ++ line))
    else .reading (raw ++ line) []
  else .stopped (.error "stream did not contain valid UTF-8")

/-- One byte. -/
def feed : Reading → UInt8 → Reading
  | .reading raw line, b =>
      if b = Lines.newline then endLine raw (line ++ [b]) else .reading raw (line ++ [b])
  | .stopped outcome, _ => .stopped outcome

/-- The end of the stream: the rest is a line, and the next one is empty. -/
def finish : Reading → Reading
  | .reading raw line =>
      if (Lines.text? line).isSome then .stopped (.ok (raw ++ line))
      else .stopped (.error "stream did not contain valid UTF-8")
  | .stopped outcome => .stopped outcome

def fail (error : Error) : Reading → Reading
  | .reading .. => .stopped (.error error)
  | .stopped outcome => .stopped outcome

/-- One `read`. -/
def take (reading : Reading) : SocketRead → Reading
  | .data first rest => (first :: rest).foldl feed reading
  | .closed => finish reading
  | .failed error => fail error reading

/-- Where the reader is after `k` reads. -/
def after (c : Client) : ℕ → Reading
  | 0 => start
  | k + 1 => take (after c k) (c.sends k)

/-- `read_headers` returns by the `k`-th read. -/
def StopsBy (c : Client) (k : ℕ) : Prop := (after c k).isStopped = true

/-! ## Where the reader stands, from the bytes alone -/

/-- A line after which the reader goes on: newline-ended, UTF-8, not blank. -/
structure Plain (line : List UInt8) : Prop where
  ended : ∃ body, line = body ++ [Lines.newline] ∧ Lines.newline ∉ body
  utf8 : (Lines.text? line).isSome = true
  filled : isBlank line = false

/-- The front of a head after which the reader goes on. -/
def Open (front : List UInt8) : Prop :=
  front.length ≤ 8192 ∧ ∃ lines : List (List UInt8), front = lines.flatten ∧ ∀ l ∈ lines, Plain l

theorem feed_body {raw line body : List UInt8} (whole : Lines.newline ∉ body) :
    body.foldl feed (.reading raw line) = .reading raw (line ++ body) := by
  induction body generalizing line with
  | nil => rw [List.foldl_nil, List.append_nil]
  | cons b body ih =>
      simp only [List.mem_cons, not_or] at whole
      rw [List.foldl_cons, feed, if_neg (Ne.symm whole.1), ih whole.2, List.append_assoc]
      rfl

theorem feed_line {raw body : List UInt8} (whole : Lines.newline ∉ body) :
    (body ++ [Lines.newline]).foldl feed (.reading raw []) =
      endLine raw (body ++ [Lines.newline]) := by
  rw [List.foldl_append, feed_body whole, List.nil_append, List.foldl_cons, List.foldl_nil, feed,
    if_pos rfl]

theorem endLine_plain {raw line : List UInt8} (plain : Plain line)
    (small : (raw ++ line).length ≤ 8192) : endLine raw line = .reading (raw ++ line) [] := by
  rw [endLine, if_pos plain.utf8, plain.filled, if_neg Bool.false_ne_true,
    if_neg (Nat.not_lt.2 small)]

theorem feed_lines {lines : List (List UInt8)} (plain : ∀ l ∈ lines, Plain l)
    {raw : List UInt8} (small : (raw ++ lines.flatten).length ≤ 8192) :
    lines.flatten.foldl feed (.reading raw []) = .reading (raw ++ lines.flatten) [] := by
  induction lines generalizing raw with
  | nil => rw [List.flatten_nil, List.foldl_nil, List.append_nil]
  | cons l lines ih =>
      have first := plain l (List.mem_cons_self ..)
      obtain ⟨body, is, whole⟩ := first.ended
      rw [List.flatten_cons, ← List.append_assoc] at small ⊢
      have small' : (raw ++ l).length ≤ 8192 := by
        rw [List.length_append] at small
        omega
      rw [List.foldl_append, is, feed_line whole, ← is, endLine_plain first small']
      exact ih (fun l' member => plain l' (List.mem_cons_of_mem _ member)) small

theorem endLine_reading {raw line raw' line' : List UInt8}
    (ends : endLine raw line = .reading raw' line') :
    (Lines.text? line).isSome = true ∧ isBlank line = false ∧ (raw ++ line).length ≤ 8192 ∧
      raw' = raw ++ line ∧ line' = [] := by
  unfold endLine at ends
  by_cases utf8 : (Lines.text? line).isSome
  · rw [if_pos utf8] at ends
    by_cases blank : isBlank line
    · rw [if_pos blank] at ends
      cases ends
    · rw [if_neg blank] at ends
      by_cases large : 8192 < (raw ++ line).length
      · rw [if_pos large] at ends
        cases ends
      · rw [if_neg large] at ends
        cases ends
        exact ⟨utf8, Bool.eq_false_iff.2 blank, Nat.not_lt.1 large, rfl, rfl⟩
  · rw [if_neg utf8] at ends
    cases ends

/-- **The reader is still reading exactly if the bytes are an open front and the beginning of a
line**, and then these are what it holds. -/
theorem foldl_feed_reading {data raw line : List UInt8} :
    data.foldl feed start = .reading raw line ↔
      data = raw ++ line ∧ Open raw ∧ Lines.newline ∉ line := by
  constructor
  · intro stands
    induction data using List.reverseRecOn generalizing raw line with
    | nil =>
        cases stands
        exact ⟨rfl, ⟨Nat.zero_le _, [], rfl, nofun⟩, List.not_mem_nil⟩
    | append_singleton data b ih =>
        rw [List.foldl_append, List.foldl_cons, List.foldl_nil] at stands
        match before : data.foldl feed start with
        | .stopped outcome =>
            rw [before] at stands
            cases stands
        | .reading raw' line' =>
            obtain ⟨rfl, ⟨-, lines, rfl, plain⟩, whole⟩ := ih before
            rw [before, feed] at stands
            by_cases ended : b = Lines.newline
            · rw [if_pos ended] at stands
              obtain ⟨utf8, filled, small, rfl, rfl⟩ := endLine_reading stands
              subst ended
              refine ⟨by simp, ⟨small, lines ++ [line' ++ [Lines.newline]], by simp, ?_⟩,
                List.not_mem_nil⟩
              intro l member
              rcases List.mem_append.1 member with member | member
              · exact plain l member
              · rw [List.mem_singleton.1 member]
                exact ⟨⟨line', rfl, whole⟩, utf8, filled⟩
            · rw [if_neg ended] at stands
              cases stands
              refine ⟨by simp, (ih before).2.1, ?_⟩
              rw [List.mem_append, List.mem_singleton]
              exact not_or.2 ⟨whole, Ne.symm ended⟩
  · rintro ⟨rfl, ⟨small, lines, rfl, plain⟩, whole⟩
    have fed : lines.flatten.foldl feed start = .reading lines.flatten [] := by
      rw [start, feed_lines plain (by rwa [List.nil_append]), List.nil_append]
    rw [List.foldl_append, fed, feed_body whole, List.nil_append]

/-! ## Runs -/

@[simp] theorem foldl_feed_stopped (bytes : List UInt8) (outcome : Except Error (List UInt8)) :
    bytes.foldl feed (.stopped outcome) = .stopped outcome := by
  induction bytes with
  | nil => rfl
  | cons b bytes ih => exact ih

/-- What has stopped stays so. -/
theorem take_stopped (outcome : Except Error (List UInt8)) (r : SocketRead) :
    take (.stopped outcome) r = .stopped outcome := by
  cases r with
  | data first rest => exact foldl_feed_stopped _ outcome
  | closed | failed => rfl

theorem StopsBy.mono {c : Client} {k m : ℕ} (stops : StopsBy c k) (le : k ≤ m) : StopsBy c m := by
  induction m, le using Nat.le_induction with
  | base => exact stops
  | succ m _ ih =>
      unfold StopsBy at ih ⊢
      match is : after c m with
      | .stopped outcome => rw [after, is, take_stopped]; rfl
      | .reading .. => rw [is] at ih; cases ih

/-- As long as bytes come, they are fed one after another. -/
theorem after_of_data {c : Client} {k : ℕ} (data : ∀ j < k, (c.sends j).isData = true) :
    after c k = (c.sent k).foldl feed start := by
  induction k with
  | zero => rfl
  | succ k ih =>
      have here := data k (Nat.lt_succ_self k)
      rw [after, ih fun j lt => data j (Nat.lt_succ_of_lt lt), Client.sent_succ, List.foldl_append]
      match is : c.sends k with
      | .data first rest => rfl
      | .closed | .failed _ => rw [is] at here; cases here

/-- Whoever is still reading has had bytes from every read. -/
theorem data_of_reading {c : Client} {k : ℕ} (reads : ¬ StopsBy c k) :
    ∀ j < k, (c.sends j).isData = true := by
  intro j lt
  by_contra none_
  have stops : StopsBy c (j + 1) := by
    unfold StopsBy
    rw [after]
    match is : c.sends j with
    | .data .. => exact absurd (by rw [is]; rfl) none_
    | .closed => cases after c j with
      | stopped outcome => rfl
      | reading raw line =>
          simp only [take, finish]
          split <;> rfl
    | .failed error => cases after c j <;> rfl
  exact reads (stops.mono lt)

/-! ## The head of a text -/

theorem isBlank_bytes (line : List Char) :
    isBlank (Lines.bytes line) = true ↔ line = ['\r', '\n'] ∨ line = ['\n'] := by
  have crlf : Lines.bytes ['\r', '\n'] = [Lines.carriageReturn, Lines.newline] := by decide
  have lf : Lines.bytes ['\n'] = [Lines.newline] := by decide
  rw [isBlank, Bool.or_eq_true, decide_eq_true_eq, decide_eq_true_eq, ← crlf, ← lf]
  apply or_congr
  · exact ⟨Lines.bytes_injective, fun is => is ▸ rfl⟩
  · exact ⟨Lines.bytes_injective, fun is => is ▸ rfl⟩

theorem utf8_bytes (text : List Char) : (Lines.text? (Lines.bytes text)).isSome = true := by
  rw [Lines.text?_bytes]
  rfl

/-- A line of text, with its newline. -/
theorem endLine_bytes (raw line : List Char) :
    endLine (Lines.bytes raw) (Lines.bytes line) =
      if line = ['\r', '\n'] ∨ line = ['\n'] ∨ 8192 < Text.byteLength (raw ++ line) then
        .stopped (.ok (Lines.bytes (raw ++ line)))
      else .reading (Lines.bytes (raw ++ line)) [] := by
  rw [endLine, if_pos (utf8_bytes line), ← Lines.bytes_append, Lines.length_bytes]
  by_cases blank : isBlank (Lines.bytes line)
  · have blank' := (isBlank_bytes line).1 blank
    rw [if_pos blank, if_pos (or_assoc.1 (.inl blank'))]
  · have filled := mt (isBlank_bytes line).2 blank
    simp only [if_neg blank, ← or_assoc, filled, false_or]

/-- **On a text that ends, the bytes are read as `readHeaders` reads its characters.** -/
theorem finish_feed (text raw : List Char) :
    finish ((Lines.bytes text).foldl feed (.reading (Lines.bytes raw) [])) =
      .stopped (.ok (Lines.bytes (readHead raw (Text.readLines text)))) := by
  induction text using Text.line_induction generalizing raw with
  | nil =>
      show finish (.reading (Lines.bytes raw) (Lines.bytes [])) = _
      rw [finish, if_pos (utf8_bytes []), ← Lines.bytes_append, List.append_nil]
      rfl
  | last line some_ whole =>
      have unblank : ¬ (line = ['\r', '\n'] ∨ line = ['\n']) := by
        rintro (rfl | rfl)
        · exact whole (by decide)
        · exact whole (by decide)
      rw [feed_body (Lines.newline_notMem_bytes whole), List.nil_append, finish,
        if_pos (utf8_bytes line), ← Lines.bytes_append, Text.readLines_last some_ whole,
        readHead, if_neg unblank]
      split <;> rfl
  | cons line rest whole ih =>
      have line' : Lines.bytes (line ++ ['\n']) = Lines.bytes line ++ [Lines.newline] :=
        Lines.bytes_append line ['\n']
      have split' : line ++ '\n' :: rest = (line ++ ['\n']) ++ rest := by simp
      rw [Text.readLines_cons whole, split', Lines.bytes_append, List.foldl_append, line',
        feed_line (Lines.newline_notMem_bytes whole), ← line', endLine_bytes, readHead]
      by_cases blank : line ++ ['\n'] = ['\r', '\n'] ∨ line ++ ['\n'] = ['\n']
      · rw [if_pos (or_assoc.1 (.inl blank)), if_pos blank, foldl_feed_stopped, finish]
      · by_cases large : 8192 < Text.byteLength (raw ++ (line ++ ['\n']))
        · rw [if_pos (or_assoc.1 (.inr large)), if_neg blank, if_pos large, foldl_feed_stopped,
            finish]
        · rw [if_neg (fun some_ => (or_assoc.2 some_).elim blank large), if_neg blank,
            if_neg large]
          exact ih _

/-- A client that sends a text and closes is read as the paywall reads the text. -/
theorem after_closed {c : Client} {k : ℕ} {text : List Char}
    (data : ∀ j < k, (c.sends j).isData = true) (sent : c.sent k = Lines.bytes text)
    (closed : c.sends k = .closed) :
    after c (k + 1) = .stopped (.ok (Lines.bytes (readHeaders text))) := by
  rw [after, closed, after_of_data data, sent]
  exact finish_feed text []

end HeadReader

end ComputerMoney.Kernel
