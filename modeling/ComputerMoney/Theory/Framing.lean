/-
# Theory.Framing -- frames on a stream that arrives in pieces

Items are sent as frames, one after another, and their bytes arrive cut anywhere.  A reader
keeps what has arrived and takes a frame off the front whenever one decodes; in which order it
feeds and takes is left open (`Step`).  If every frame reads back whatever follows it
(`Reads.whole`) and no shorter part of it reads as anything (`Reads.part`), then every run
takes the items in order (`Sync.run`), each as soon as its last byte is there and never before
(`decode_front`), and a run that can go no further has taken all of them and left nothing
(`Sync.stopped`).
-/
import Mathlib.Data.List.Basic
import Mathlib.Data.List.Infix

namespace ComputerMoney.Theory

set_option autoImplicit false

/-- How an item is written, and how the front of a buffer is read: the item there and what it
took. -/
structure Framing (β α : Type) where
  encode : α → List β
  decode : List β → Option (α × ℕ)
  /-- Nothing is read from nothing. -/
  idle : decode [] = none

namespace Framing

variable {β α : Type} (F : Framing β α)

/-- The frame of `x` reads back from any buffer it leads, and no shorter part of it does. -/
structure Reads (x : α) : Prop where
  whole : ∀ rest, F.decode (F.encode x ++ rest) = some (x, (F.encode x).length)
  part : ∀ front, front <+: F.encode x → front.length < (F.encode x).length →
    F.decode front = none

/-- What has arrived and is not taken, the pieces still to come, the items taken. -/
structure Reader (β α : Type) where
  buffer : List β
  coming : List (List β)
  taken : List α

/-- Let the next piece in, or take the item at the front. -/
inductive Step : Reader β α → Reader β α → Prop
  | feed (buffer piece : List β) (coming : List (List β)) (taken : List α) :
      Step ⟨buffer, piece :: coming, taken⟩ ⟨buffer ++ piece, coming, taken⟩
  | take {buffer : List β} {coming : List (List β)} {taken : List α} {x : α} {length : ℕ}
      (decoded : F.decode buffer = some (x, length)) :
      Step ⟨buffer, coming, taken⟩ ⟨buffer.drop length, coming, taken ++ [x]⟩

/-- A run of so many steps. -/
inductive Run : ℕ → Reader β α → Reader β α → Prop
  | here (r : Reader β α) : Run 0 r r
  | step {n : ℕ} {r r₁ r' : Reader β α} (first : F.Step r r₁) (rest : Run n r₁ r') :
      Run (n + 1) r r'

def Stopped (r : Reader β α) : Prop := ∀ r', ¬ F.Step r r'

/-- The reader is between two frames or inside one: what it has not taken is what its buffer
and the pieces to come spell. -/
def Sync (items : List α) (r : Reader β α) : Prop :=
  ∃ rest, items = r.taken ++ rest ∧ r.buffer ++ r.coming.flatten = rest.flatMap F.encode

/-- The next of the items to come, with the length of its frame, if the buffer holds that
much. -/
def due (buffer : List β) : List α → Option (α × ℕ)
  | [] => none
  | x :: _ => if (F.encode x).length ≤ buffer.length then some (x, (F.encode x).length) else none

variable {F}

@[simp] theorem due_nil (buffer : List β) : F.due buffer [] = none := rfl

@[simp] theorem due_cons (buffer : List β) (x : α) (rest : List α) :
    F.due buffer (x :: rest) =
      if (F.encode x).length ≤ buffer.length then some (x, (F.encode x).length) else none := rfl

/-- **An item decodes exactly when its last byte is there**, and then nothing after it is
taken. -/
theorem decode_front {x : α} (reads : F.Reads x) {buffer coming : List β}
    {rest : List α} (spells : buffer ++ coming = (x :: rest).flatMap F.encode) :
    F.decode buffer = F.due buffer (x :: rest) := by
  have ours : buffer <+: F.encode x ++ rest.flatMap F.encode := ⟨coming, spells⟩
  have frame : F.encode x <+: F.encode x ++ rest.flatMap F.encode := List.prefix_append _ _
  rw [due_cons]
  by_cases all : (F.encode x).length ≤ buffer.length
  · obtain ⟨after, rfl⟩ := List.prefix_of_prefix_length_le frame ours all
    rw [if_pos all]
    exact reads.whole after
  · rw [if_neg all]
    exact reads.part buffer (List.prefix_of_prefix_length_le ours frame (by omega)) (by omega)

section Run

variable {items : List α} {r r' : Reader β α}

/-- What the front of the buffer decodes to. -/
theorem Sync.decode (reads : ∀ x ∈ items, F.Reads x) (sync : F.Sync items r) :
    ∃ rest, items = r.taken ++ rest ∧ F.decode r.buffer = F.due r.buffer rest := by
  obtain ⟨rest, is, spells⟩ := sync
  refine ⟨rest, is, ?_⟩
  cases rest with
  | nil =>
      have nothing : r.buffer = [] := (List.append_eq_nil_iff.1 spells).1
      rw [nothing, due_nil]
      exact F.idle
  | cons x rest => exact decode_front (reads x (by simp [is])) spells

/-- One step keeps the reader in step with the stream, and brings it one nearer to the end. -/
theorem Sync.step (reads : ∀ x ∈ items, F.Reads x) (sync : F.Sync items r)
    (step : F.Step r r') : F.Sync items r' ∧
      r'.coming.length + (items.length - r'.taken.length) + 1 =
        r.coming.length + (items.length - r.taken.length) := by
  cases step with
  | feed buffer piece coming taken =>
      obtain ⟨rest, is, spells⟩ := sync
      refine ⟨⟨rest, is, by simpa using spells⟩, ?_⟩
      simp only [List.length_cons]
      omega
  | @take buffer coming taken x length decoded =>
      obtain ⟨rest, is, spells⟩ := sync
      cases rest with
      | nil =>
          have nothing : buffer = [] := (List.append_eq_nil_iff.1 spells).1
          rw [nothing, F.idle] at decoded
          cases decoded
      | cons y rest =>
          have front := decode_front (reads y (by simp [is])) spells
          rw [decoded, due_cons] at front
          by_cases all : (F.encode y).length ≤ buffer.length
          · rw [if_pos all] at front
            cases front
            have frame := congrArg (List.drop (F.encode x).length) spells
            rw [List.drop_append_of_le_length all, List.flatMap_cons, List.drop_left'] at frame
            · refine ⟨⟨rest, by simp [is], frame⟩, ?_⟩
              simp only [is, List.length_append, List.length_cons, List.length_nil]
              omega
            · rfl
          · rw [if_neg all] at front
            cases front

/-- **A run takes the items in order**, and has so many steps at most. -/
theorem Sync.run (reads : ∀ x ∈ items, F.Reads x) {n : ℕ} (sync : F.Sync items r)
    (run : F.Run n r r') : F.Sync items r' ∧
      r'.coming.length + (items.length - r'.taken.length) + n =
        r.coming.length + (items.length - r.taken.length) := by
  induction run with
  | here r => exact ⟨sync, rfl⟩
  | step first rest ih =>
      obtain ⟨sync₁, nearer⟩ := sync.step reads first
      obtain ⟨sync', nearest⟩ := ih sync₁
      refine ⟨sync', ?_⟩
      omega

/-- At the end of the stream every item is taken. -/
theorem Sync.ended (sync : F.Sync items r) (closed : r.coming = [])
    (all : items.length ≤ r.taken.length) : r = ⟨[], [], items⟩ := by
  obtain ⟨buffer, coming, taken⟩ := r
  obtain ⟨rest, is, spells⟩ := sync
  obtain rfl : coming = [] := closed
  have nothing : rest = [] := by
    rw [is, List.length_append] at all
    apply List.length_eq_zero_iff.1
    omega
  subst nothing
  simp_all

/-- **A run that can go no further has taken every item**, and nothing is left. -/
theorem Sync.stopped (reads : ∀ x ∈ items, F.Reads x) (sync : F.Sync items r)
    (stopped : F.Stopped r) : r = ⟨[], [], items⟩ := by
  obtain ⟨buffer, coming, taken⟩ := r
  have closed : coming = [] := by
    cases coming with
    | nil => rfl
    | cons piece coming => exact absurd (.feed buffer piece coming taken) (stopped _)
  subst closed
  obtain ⟨rest, is, spells⟩ := sync
  cases rest with
  | nil => exact Sync.ended ⟨[], is, spells⟩ rfl (by simp [is])
  | cons x rest =>
      have front := decode_front (reads x (by simp [is])) spells
      have whole : (F.encode x).length ≤ buffer.length := by
        have lengths := congrArg List.length spells
        simp only [List.flatten_nil, List.append_nil, List.flatMap_cons,
          List.length_append] at lengths
        omega
      rw [due_cons, if_pos whole] at front
      exact absurd (.take front) (stopped _)

end Run

/-! ## The reader that takes what it can before it waits for more -/

/-- What it does next, if anything. -/
def next (F : Framing β α) (r : Reader β α) : Option (Reader β α) :=
  match F.decode r.buffer with
  | some (x, length) => some ⟨r.buffer.drop length, r.coming, r.taken ++ [x]⟩
  | none => match r.coming with
      | piece :: coming => some ⟨r.buffer ++ piece, coming, r.taken⟩
      | [] => none

def drive (F : Framing β α) : ℕ → Reader β α → Reader β α
  | 0, r => r
  | n + 1, r => match F.next r with
      | some r' => F.drive n r'
      | none => r

theorem next_step {r r' : Reader β α} (moves : F.next r = some r') : F.Step r r' := by
  unfold next at moves
  split at moves
  · rename_i decoded
    cases moves
    exact .take decoded
  · split at moves
    · rename_i coming
      cases moves
      obtain ⟨buffer, pieces, taken⟩ := r
      obtain rfl := coming
      exact .feed _ _ _ _
    · cases moves

theorem next_stopped {r : Reader β α} (still : F.next r = none) : F.Stopped r := by
  intro r' step
  cases step with
  | feed buffer piece coming taken =>
      unfold next at still
      split at still <;> cases still
  | take decoded =>
      rw [next, decoded] at still
      cases still

/-- It makes a run, of all its steps or to where it can go no further. -/
theorem drive_run (n : ℕ) (r : Reader β α) :
    ∃ k, F.Run k r (F.drive n r) ∧ (k = n ∨ F.Stopped (F.drive n r)) := by
  induction n generalizing r with
  | zero => exact ⟨0, .here r, .inl rfl⟩
  | succ n ih =>
      unfold drive
      split
      · rename_i r' moves
        obtain ⟨k, run, ends⟩ := ih r'
        exact ⟨k + 1, .step (next_step moves) run, ends.imp_left (congrArg Nat.succ)⟩
      · rename_i still
        exact ⟨0, .here r, .inr (next_stopped still)⟩

/-- **It takes every item.** -/
theorem drive_takes {items : List α} {r : Reader β α} (reads : ∀ x ∈ items, F.Reads x)
    (sync : F.Sync items r) :
    F.drive (r.coming.length + (items.length - r.taken.length)) r = ⟨[], [], items⟩ := by
  obtain ⟨k, run, full | stopped⟩ :=
    drive_run (F := F) (r.coming.length + (items.length - r.taken.length)) r
  · obtain ⟨sync', nearer⟩ := sync.run reads run
    exact sync'.ended (List.length_eq_zero_iff.1 (by omega)) (by omega)
  · exact (sync.run reads run).1.stopped reads stopped

end Framing

end ComputerMoney.Theory
