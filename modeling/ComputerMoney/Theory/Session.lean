/-
# Theory.Session -- a server that takes one request after the other

A turn puts something out, or nothing, and goes on, or it ends the session.  `converse` is
the whole session over a list of requests: what was put out, in order, and why it ended
early, if it did.

Where every turn that goes on and puts out nothing but replies has one exactly when a reply
is due, and the one that is due, a session that takes every request and puts out nothing
else has one reply for each that is due one, in order (`converse_replies`).  A session takes
every request when no turn on its way ends it (`converse_through`).
-/
import Mathlib.Data.List.Forall2

namespace ComputerMoney.Theory

set_option autoImplicit false

inductive Turn (σ ο ε : Type) where
  | goes (output : List ο) (next : σ)
  | ends (why : ε)

section

variable {σ ι ο ε δ : Type} (turn : σ → ι → Turn σ ο ε)

/-- What was put out, and why the session ended before the last request, if it did. -/
def converse : σ → List ι → List ο × Option ε
  | _, [] => ([], none)
  | s, request :: requests => match turn s request with
      | .goes output next =>
          (output ++ (converse next requests).1, (converse next requests).2)
      | .ends why => ([], some why)

/-- No turn ends the session. -/
def Through : σ → List ι → Prop
  | _, [] => True
  | s, request :: requests => ∃ output next, turn s request = .goes output next ∧
      Through next requests

variable {turn} {s : σ}

theorem converse_through (requests : List ι) :
    (converse turn s requests).2 = none ↔ Through turn s requests := by
  induction requests generalizing s with
  | nil => exact ⟨fun _ => trivial, fun _ => rfl⟩
  | cons request requests ih =>
      unfold converse Through
      cases turn s request with
      | goes output next =>
          refine ih.trans ⟨fun rest => ⟨output, next, rfl, rest⟩, ?_⟩
          rintro ⟨_, _, ⟨⟩, rest⟩
          exact rest
      | ends why => exact ⟨nofun, fun ⟨_, _, same, _⟩ => nomatch same⟩

/-- The output is the reply that is due, if there is one. -/
def Replies (answers : δ → ο → Prop) : Option δ → List ο → Prop
  | some wanted, [reply] => answers wanted reply
  | none, [] => True
  | _, _ => False

/-- **One reply for each request that is due one, in order.** -/
theorem converse_replies {due : ι → Option δ} {answers : δ → ο → Prop} {isReply : ο → Prop}
    (each : ∀ s request output next, turn s request = .goes output next →
      (∀ o ∈ output, isReply o) → Replies answers (due request) output) {requests : List ι}
    (through : Through turn s requests) (only : ∀ o ∈ (converse turn s requests).1, isReply o) :
    List.Forall₂ answers (requests.filterMap due) (converse turn s requests).1 := by
  induction requests generalizing s with
  | nil => exact .nil
  | cons request requests ih =>
      obtain ⟨output, next, goes, rest⟩ := through
      unfold converse at only ⊢
      rw [goes] at only ⊢
      dsimp only at only ⊢
      rw [List.filterMap_cons]
      obtain ⟨here, later⟩ := List.forall_mem_append.1 only
      have replied := each s request output next goes here
      have others := ih rest later
      revert replied
      rcases due request with _ | wanted <;> rcases output with _ | ⟨reply, _ | ⟨_, _⟩⟩ <;>
        intro replied
      · exact others
      · exact replied.elim
      · exact replied.elim
      · exact replied.elim
      · exact .cons replied others
      · exact replied.elim

end

end ComputerMoney.Theory
