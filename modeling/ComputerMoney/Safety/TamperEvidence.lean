/-
# Safety.TamperEvidence -- what a signed ledger shows of an edited file

Each line of a signed ledger carries its own signature, and opening checks each line on
its own.  `opens_iff_appended` is exactly what that buys, with a signature that verifies
only for what this wallet signed: the lists some accepted file loads are the lists of
appended entries.  An altered or invented entry is in none of them; an entry repeated,
left out or moved is in many (`rearranged_opens`), and the folds over the loaded list see
that list and no other.
-/
import ComputerMoney.Safety.CrashRecovery

namespace ComputerMoney.Safety

set_option autoImplicit false

open Theory Kernel

section

variable {keeper : Keeper} {appended : List Entry}

/-- A signature verifies only for an entry this wallet signed. -/
def Unforgeable (keeper : Keeper) (appended : List Entry) : Prop :=
  ∀ entry sig, keeper.verify entry sig = true → entry ∈ appended

/-- A line that passes under an identity is blank, or an entry this wallet signed. -/
theorem readLine_appended (signs : keeper.sign.isSome) (ideal : Unforgeable keeper appended)
    {line : List UInt8} {entry : Entry} (read : keeper.readLine line = .ok (some entry)) :
    entry ∈ appended := by
  unfold Keeper.readLine at read
  split at read
  · cases read
  split at read
  · cases read
  split at read
  · cases read
  rename_i record _
  rcases verified : keeper.verify record.entry record.sig with _ | _
  · rw [signs, verified] at read
    cases read
  · rw [verified, Bool.not_true, Bool.and_false, if_neg Bool.false_ne_true] at read
    cases read
    exact ideal _ _ verified

theorem readLines_appended (signs : keeper.sign.isSome) (ideal : Unforgeable keeper appended)
    {lines : List (List UInt8)} {loaded : List Entry} (read : keeper.readLines lines = .ok loaded) :
    ∀ entry ∈ loaded, entry ∈ appended := by
  induction lines generalizing loaded with
  | nil =>
      cases read
      exact nofun
  | cons line lines ih =>
      unfold Keeper.readLines at read
      rcases first : keeper.readLine line with e | entry <;> rw [first] at read
      · cases read
      rcases rest : keeper.readLines lines with e | entries <;> rw [rest] at read
      · cases read
      cases read
      intro entry' member
      rcases List.mem_append.1 member with here | later
      · rw [Option.mem_toList] at here
        obtain rfl : entry = some entry' := here
        exact readLine_appended signs ideal first
      · exact ih rest entry' later

/-- **What a signed ledger can be made to load.**  Some accepted file loads these entries
if and only if this wallet appended each of them. -/
theorem opens_iff_appended (signs : keeper.sign.isSome) (ideal : Unforgeable keeper appended)
    (readable : ∀ entry ∈ appended, Readable keeper entry) (loaded : List Entry) :
    (∃ file, keeper.openInner file = .ok loaded) ↔ ∀ entry ∈ loaded, entry ∈ appended := by
  constructor
  · rintro ⟨file, opened⟩
    exact readLines_appended signs ideal opened
  · intro all
    refine ⟨loaded.flatMap keeper.line, openInner_holds (.ended loaded) ?_⟩
    exact fun entry member => readable entry (all entry member)

end

/-! ## A log of three lines -/

/-- Three entries, as one ledger appends them. -/
def signedLog : List Entry := [issuedEntry, statusEntry, .addressIssued 2 4]

/-- A signature for each of the three. -/
def sampleSign (entry : Entry) : String :=
  "e907831f80848d1069a5371b402410364bdf1c5f8307b0084c55f1ce2dca8215" ++ toString entry.seq

/-- An identity that signed the three entries and nothing else. -/
def signedKeeper : Keeper where
  fromStr text :=
    match signedLog.find? fun entry => recordJson ⟨entry, sampleSign entry⟩ = text with
    | some entry => .ok ⟨entry, sampleSign entry⟩
    | none => .error "expected value at line 1 column 1"
  sign := some sampleSign
  verify entry sig := entry ∈ signedLog ∧ sig = sampleSign entry

theorem signedKeeper_unforgeable : Unforgeable signedKeeper signedLog := by
  intro entry sig verified
  exact (of_decide_eq_true verified).1

theorem signedKeeper_readable : ∀ entry ∈ signedLog, Readable signedKeeper entry := by
  intro entry member
  simp only [signedLog, List.mem_cons, List.not_mem_nil, or_false] at member
  rcases member with rfl | rfl | rfl
  · exact ⟨by decide +kernel, fun _ => by decide +kernel⟩
  · exact ⟨by decide +kernel, fun _ => by decide +kernel⟩
  · exact ⟨by decide +kernel, fun _ => by decide +kernel⟩

theorem opens_iff_appended_sample :
    (∃ file, signedKeeper.openInner file = .ok signedLog) ∧
      ¬ ∃ file, signedKeeper.openInner file = .ok [.addressIssued 0 4] := by
  have opens := @opens_iff_appended signedKeeper signedLog rfl signedKeeper_unforgeable
    signedKeeper_readable
  refine ⟨(opens signedLog).2 fun _ member => member, fun altered => ?_⟩
  exact absurd ((opens [.addressIssued 0 4]).1 altered) (by decide)

/-- The first two lines swapped, the second written twice, the second left out: each file
is accepted, and none loads a beginning of the log. -/
theorem rearranged_opens :
    signedKeeper.sign.isSome ∧ Unforgeable signedKeeper signedLog ∧ signedLog.Nodup ∧
      ∀ loaded ∈ [[statusEntry, issuedEntry, .addressIssued 2 4],
          [issuedEntry, statusEntry, statusEntry], [issuedEntry, .addressIssued 2 4]],
        signedKeeper.openInner (loaded.flatMap signedKeeper.line) = .ok loaded ∧
          ¬ loaded <+: signedLog := by
  refine ⟨rfl, signedKeeper_unforgeable, by decide, fun loaded member => ⟨?_, ?_⟩⟩
  · refine openInner_holds (.ended loaded) fun entry inLoaded => signedKeeper_readable entry ?_
    revert loaded entry
    decide
  · revert loaded
    decide

end ComputerMoney.Safety
