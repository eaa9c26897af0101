/-
# Safety.CrashRecovery -- what a reopened ledger holds, and what a torn line does to it

An append either returns, or fails having written some prefix of its line, or is cut by
a crash after some prefix.  Reopening should give the entries whose append returned, in
order, and for an append a crash cut, its entry or not (`Recovers`).

A prefix that stops inside the text is a line the reader refuses, and it refuses the
whole file with it (`torn_line_refused`); a failed append that wrote its whole line
leaves an entry whose caller was told it failed; and a text left without its newline is
glued to the next line.  `reopens` is the rest: in a run that does none of this (`Clean`
at every step) the file always reopens, to exactly what `Recovers` says.
-/
import ComputerMoney.Kernel.LedgerFile
import ComputerMoney.Kernel.Script

namespace ComputerMoney.Safety

set_option autoImplicit false

open Theory Kernel

/-! ## Runs of appends -/

/-- How one append ended: it returned, or it wrote the first `written` bytes of its line
and failed, or it wrote them and the process died. -/
inductive Fate where
  | returned
  | failed (written : ℕ)
  | crashed (written : ℕ)
  deriving DecidableEq, Repr

structure Attempt where
  entry : Entry
  fate : Fate
  deriving DecidableEq, Repr

section

variable (keeper : Keeper)

/-- What an append leaves of its line. -/
def Attempt.left (attempt : Attempt) : List UInt8 :=
  match attempt.fate with
  | .returned => keeper.line attempt.entry
  | .failed written | .crashed written => (keeper.line attempt.entry).take written

/-- The file after a run of appends. -/
def fileAfter (run : List Attempt) : List UInt8 := run.flatMap (Attempt.left keeper)

end

/-- What may be recovered from a run: all that returned, none that failed, and each that
a crash cut or not. -/
inductive Recovers : List Attempt → List Entry → Prop
  | nil : Recovers [] []
  | returned {run : List Attempt} {entries : List Entry} {entry : Entry} :
      Recovers run entries → Recovers (run ++ [⟨entry, .returned⟩]) (entries ++ [entry])
  | failed {run : List Attempt} {entries : List Entry} {entry : Entry} {written : ℕ} :
      Recovers run entries → Recovers (run ++ [⟨entry, .failed written⟩]) entries
  | lost {run : List Attempt} {entries : List Entry} {entry : Entry} {written : ℕ} :
      Recovers run entries → Recovers (run ++ [⟨entry, .crashed written⟩]) entries
  | inFlight {run : List Attempt} {entries : List Entry} {entry : Entry} {written : ℕ} :
      Recovers run entries → Recovers (run ++ [⟨entry, .crashed written⟩]) (entries ++ [entry])

/-- The file ends where a line may begin. -/
def Ended (file : List UInt8) : Prop := file = [] ∨ file.getLast? = some Lines.newline

/-- A step that keeps the file whole: what fails has written nothing; what a crash cuts
has written nothing or at least its text; and what writes finds the last line ended. -/
def Clean (keeper : Keeper) (file : List UInt8) (attempt : Attempt) : Prop :=
  match attempt.fate with
  | .returned => Ended file
  | .failed written => written = 0
  | .crashed written =>
      written = 0 ∨ Ended file ∧ (keeper.lineText attempt.entry).length ≤ written

/-- Every step of the run is clean, on the file as it finds it. -/
inductive CleanRun (keeper : Keeper) : List Attempt → Prop
  | nil : CleanRun keeper []
  | step {run : List Attempt} {attempt : Attempt} : CleanRun keeper run →
      Clean keeper (fileAfter keeper run) attempt → CleanRun keeper (run ++ [attempt])

/-! ## The file of a clean run -/

/-- The file is these entries, one line each, the last possibly without its newline. -/
inductive Holds (keeper : Keeper) : List UInt8 → List Entry → Prop
  | ended (entries : List Entry) : Holds keeper (entries.flatMap keeper.line) entries
  | unended (entries : List Entry) (last : Entry) :
      Holds keeper (entries.flatMap keeper.line ++ keeper.lineText last) (entries ++ [last])

section

variable {keeper : Keeper}

/-- The reader reads back what the keeper wrote for this entry. -/
def Readable (keeper : Keeper) (entry : Entry) : Prop :=
  keeper.fromStr (recordJson (keeper.recordOf entry)) = .ok (keeper.recordOf entry) ∧
    (keeper.sign.isSome → keeper.verify entry (keeper.recordOf entry).sig = true)

theorem readLine_lineText {entry : Entry} (readable : Readable keeper entry) :
    keeper.readLine (keeper.lineText entry) = .ok (some entry) := by
  have verified : (keeper.sign.isSome && !keeper.verify entry (keeper.recordOf entry).sig)
      = false := by
    rcases signs : keeper.sign.isSome with _ | _
    · rfl
    · rw [readable.2 signs]
      rfl
  unfold Keeper.readLine Keeper.lineText
  rw [Lines.text?_bytes]
  simp only [Keeper.trim_recordJson, if_false, readable.1]
  simp [Keeper.recordOf] at verified ⊢
  exact verified

theorem lines_flatMap (entries : List Entry) (rest : List UInt8) :
    Lines.lines (entries.flatMap keeper.line ++ rest) =
      entries.map keeper.lineText ++ Lines.lines rest := by
  induction entries with
  | nil => rfl
  | cons entry entries ih =>
      have plain : (keeper.lineText entry).getLast? ≠ some Lines.carriageReturn := by
        rw [keeper.getLast?_lineText]
        decide
      rw [List.flatMap_cons, Keeper.line, List.append_assoc, List.append_assoc,
        List.singleton_append, Lines.lines_cons (keeper.newline_notMem_lineText entry) plain, ih]
      rfl

theorem readLines_map {entries : List Entry} (readable : ∀ e ∈ entries, Readable keeper e) :
    keeper.readLines (entries.map keeper.lineText) = .ok entries := by
  induction entries with
  | nil => rfl
  | cons entry entries ih =>
      have first := readLine_lineText (readable entry (List.mem_cons_self ..))
      have rest := ih fun e member => readable e (List.mem_cons_of_mem _ member)
      simp only [List.map_cons, Keeper.readLines, first, rest]
      rfl

/-- A file that holds readable entries opens to them. -/
theorem openInner_holds {file : List UInt8} {entries : List Entry}
    (holds : Holds keeper file entries) (readable : ∀ e ∈ entries, Readable keeper e) :
    keeper.openInner file = .ok entries := by
  cases holds with
  | ended =>
      have lines := @lines_flatMap keeper entries []
      rw [List.append_nil] at lines
      rw [Keeper.openInner, lines]
      simpa [Lines.lines, Lines.chunks] using readLines_map readable
  | unended entries last =>
      have tail := Lines.lines_last (keeper.newline_notMem_lineText last)
        (keeper.lineText_ne_nil last)
      rw [Keeper.openInner, lines_flatMap, tail, ← List.map_singleton, ← List.map_append]
      exact readLines_map readable

/-- Where a line may begin, every line is ended. -/
theorem Holds.whole {file : List UInt8} {entries : List Entry} (holds : Holds keeper file entries)
    (ended : Ended file) : file = entries.flatMap keeper.line := by
  cases holds with
  | ended => rfl
  | unended entries last =>
      have brace : (entries.flatMap keeper.line ++ keeper.lineText last).getLast? = some 125 := by
        rw [List.getLast?_append_of_ne_nil _ (keeper.lineText_ne_nil last),
          keeper.getLast?_lineText]
      rcases ended with none | newline
      · rw [none] at brace
        cases brace
      · rw [newline] at brace
        exact absurd brace (by decide)

/-- A step of a clean run: the file keeps holding what may be recovered. -/
theorem Holds.step {file : List UInt8} {run : List Attempt} {entries : List Entry}
    {attempt : Attempt} (holds : Holds keeper file entries) (recovers : Recovers run entries)
    (clean : Clean keeper file attempt) :
    ∃ entries', Holds keeper (file ++ attempt.left keeper) entries' ∧
      Recovers (run ++ [attempt]) entries' ∧ ∀ e ∈ entries', e ∈ entries ∨ e = attempt.entry := by
  obtain ⟨entry, fate⟩ := attempt
  cases fate with
  | returned =>
      obtain rfl := holds.whole clean
      refine ⟨entries ++ [entry], ?_, .returned recovers, by simp⟩
      have grown : Holds keeper _ _ := .ended (entries ++ [entry])
      rwa [List.flatMap_append, List.flatMap_singleton] at grown
  | failed written =>
      obtain rfl : written = 0 := clean
      refine ⟨entries, ?_, .failed recovers, fun e member => .inl member⟩
      simpa [Attempt.left] using holds
  | crashed written =>
      rcases clean with rfl | ⟨ended, whole⟩
      · refine ⟨entries, ?_, .lost recovers, fun e member => .inl member⟩
        simpa [Attempt.left] using holds
      obtain rfl := holds.whole ended
      refine ⟨entries ++ [entry], ?_, .inFlight recovers, by simp⟩
      by_cases all : (keeper.lineText entry).length < written
      · have line : (keeper.line entry).take written = keeper.line entry :=
          List.take_of_length_le (by simp [Keeper.line]; omega)
        have grown : Holds keeper _ _ := .ended (entries ++ [entry])
        rw [List.flatMap_append, List.flatMap_singleton] at grown
        simpa [Attempt.left, line] using grown
      · obtain rfl : written = (keeper.lineText entry).length := by
          have : (keeper.lineText entry).length ≤ written := whole
          omega
        have text : (keeper.line entry).take (keeper.lineText entry).length =
            keeper.lineText entry := by
          simp [Keeper.line]
        have grown : Holds keeper _ _ := .unended entries entry
        simpa [Attempt.left, text] using grown

/-- A clean run leaves a file that holds what may be recovered from it. -/
theorem CleanRun.holds {run : List Attempt} (clean : CleanRun keeper run) :
    ∃ entries, Holds keeper (fileAfter keeper run) entries ∧ Recovers run entries ∧
      ∀ e ∈ entries, ∃ attempt ∈ run, e = attempt.entry := by
  induction clean with
  | nil => exact ⟨[], .ended [], .nil, nofun⟩
  | @step run attempt _ cleanStep ih =>
      obtain ⟨entries, holds, recovers, from_⟩ := ih
      obtain ⟨entries', holds', recovers', from'⟩ := holds.step recovers cleanStep
      refine ⟨entries', ?_, recovers', fun e member => ?_⟩
      · simpa [fileAfter] using holds'
      · rcases from' e member with old | rfl
        · obtain ⟨a, inRun, is⟩ := from_ e old
          exact ⟨a, List.mem_append_left _ inRun, is⟩
        · exact ⟨attempt, by simp, rfl⟩

/-- **A clean run reopens.**  However many appends return, fail or are cut, as long as
each step is clean the file opens to exactly what may be recovered. -/
theorem reopens {run : List Attempt} (clean : CleanRun keeper run)
    (readable : ∀ attempt ∈ run, Readable keeper attempt.entry) :
    ∃ entries, keeper.openInner (fileAfter keeper run) = .ok entries ∧ Recovers run entries := by
  obtain ⟨entries, holds, recovers, from_⟩ := clean.holds
  refine ⟨entries, openInner_holds holds fun e member => ?_, recovers⟩
  obtain ⟨attempt, inRun, rfl⟩ := from_ e member
  exact readable attempt inRun

end

/-! ## A torn line -/

def issuedEntry : Entry := .addressIssued 0 3

def statusEntry : Entry := .statusUpdate 1 sampleTxid .soft

/-- An unsigned ledger, with a reader that knows the two texts written to it. -/
def sampleKeeper : Keeper where
  fromStr text :=
    if text = recordJson ⟨issuedEntry, ""⟩ then .ok ⟨issuedEntry, ""⟩
    else if text = recordJson ⟨statusEntry, ""⟩ then .ok ⟨statusEntry, ""⟩
    else .error "EOF while parsing a string at line 1 column 20"
  sign := none
  verify _ _ := false

theorem reopens_sample : ∃ entries, sampleKeeper.openInner (fileAfter sampleKeeper
      [⟨issuedEntry, .returned⟩, ⟨statusEntry, .failed 0⟩, ⟨statusEntry, .crashed 200⟩]) =
        .ok entries ∧
      Recovers [⟨issuedEntry, .returned⟩, ⟨statusEntry, .failed 0⟩, ⟨statusEntry, .crashed 200⟩]
        entries := by
  have first : CleanRun sampleKeeper [⟨issuedEntry, .returned⟩] := .step .nil (.inl rfl)
  have second : CleanRun sampleKeeper [⟨issuedEntry, .returned⟩, ⟨statusEntry, .failed 0⟩] :=
    .step first rfl
  refine reopens (.step second (.inr ⟨.inr (by decide), by decide +kernel⟩)) ?_
  simp only [List.mem_cons, List.not_mem_nil, or_false, forall_eq_or_imp, forall_eq]
  exact ⟨⟨by decide, nofun⟩, ⟨by decide, nofun⟩, ⟨by decide, nofun⟩⟩

/-- One append returns, the next is cut after 20 bytes. -/
def tornRun : List Attempt := [⟨issuedEntry, .returned⟩, ⟨statusEntry, .crashed 20⟩]

/-- The torn line makes the whole file unreadable: not even the entry whose append
returned is recovered. -/
theorem torn_line_refused : ¬ ∃ entries,
    sampleKeeper.openInner (fileAfter sampleKeeper tornRun) = .ok entries ∧
      Recovers tornRun entries := by
  let torn := (recordJson ⟨statusEntry, ""⟩).take 20
  have file : fileAfter sampleKeeper tornRun =
      sampleKeeper.lineText issuedEntry ++ Lines.newline :: Lines.bytes torn := by decide
  have plain : (sampleKeeper.lineText issuedEntry).getLast? ≠ some Lines.carriageReturn := by decide
  have lines : Lines.lines (fileAfter sampleKeeper tornRun) =
      [sampleKeeper.lineText issuedEntry, Lines.bytes torn] := by
    rw [file, Lines.lines_cons (sampleKeeper.newline_notMem_lineText issuedEntry) plain,
      Lines.lines_last (by decide) (by decide)]
  have refused : sampleKeeper.readLine (Lines.bytes torn) =
      .error "EOF while parsing a string at line 1 column 20" := by
    rw [Keeper.readLine, Lines.text?_bytes]
    decide
  have first := readLine_lineText (show Readable sampleKeeper issuedEntry from ⟨by decide, nofun⟩)
  rintro ⟨entries, opened, -⟩
  rw [Keeper.openInner, lines, Keeper.readLines, first] at opened
  simp only [Keeper.readLines, refused] at opened
  cases opened

end ComputerMoney.Safety
