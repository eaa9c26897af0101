/-
# Theory.Enrol -- a sequence enrolled once by key, and taken up again

An element is enrolled to a list when no element there has its key.  What has been
enrolled is not enrolled again, so a sequence may be read twice without effect; and a
reader that is cut off anywhere may go back to where it is sure of and read on from
there.

`Resumed start all done held` says that of such a reader: of the sequence `all` it is
sure of the prefix `done`, and what it holds is what some longer prefix enrols to
`start`.  Reading on from `done` keeps this (`Resumed.reads`), going back keeps it
(`Resumed.back`), and a reader that is sure of everything holds what one reading of
everything enrols (`Resumed.complete`).
-/
import Mathlib.Data.List.Nodup

namespace ComputerMoney.Theory

set_option autoImplicit false

variable {α κ : Type} [DecidableEq κ] (key : α → κ)

/-- Enrol one element. -/
def enrol (held : List α) (x : α) : List α := if key x ∈ held.map key then held else held ++ [x]

/-- Enrol a sequence, one element after the other. -/
def enrolAll (held : List α) (xs : List α) : List α := xs.foldl (enrol key) held

section

variable {key} {held xs : List α}

@[simp] theorem enrolAll_nil : enrolAll key held [] = held := rfl

@[simp] theorem enrolAll_cons (x : α) :
    enrolAll key held (x :: xs) = enrolAll key (enrol key held x) xs := rfl

theorem enrolAll_append (ys : List α) :
    enrolAll key held (xs ++ ys) = enrolAll key (enrolAll key held xs) ys := List.foldl_append ..

theorem keys_enrol {k : κ} {x : α} :
    k ∈ (enrol key held x).map key ↔ k ∈ held.map key ∨ k = key x := by
  unfold enrol
  split
  · rename_i known
    refine ⟨.inl, ?_⟩
    rintro (old | rfl)
    · exact old
    · exact known
  · rw [List.map_append, List.mem_append, List.map_singleton, List.mem_singleton]

/-- The keys held afterwards are those of before and those read. -/
theorem keys_enrolAll {k : κ} :
    k ∈ (enrolAll key held xs).map key ↔ k ∈ held.map key ∨ k ∈ xs.map key := by
  induction xs generalizing held with
  | nil => simp
  | cons x xs ih => rw [enrolAll_cons, ih, keys_enrol, List.map_cons, List.mem_cons, or_assoc]

/-- What is known is not enrolled again. -/
theorem enrolAll_known (known : ∀ x ∈ xs, key x ∈ held.map key) : enrolAll key held xs = held := by
  induction xs with
  | nil => rfl
  | cons x xs ih =>
      have same : enrol key held x = held := if_pos (known x (List.mem_cons_self ..))
      rw [enrolAll_cons, same]
      exact ih fun y member => known y (List.mem_cons_of_mem _ member)

theorem mem_enrol {x y : α} (member : y ∈ enrol key held x) : y ∈ held ∨ y = x := by
  unfold enrol at member
  split at member
  · exact .inl member
  · exact (List.mem_append.1 member).imp_right List.mem_singleton.1

theorem mem_enrolAll {y : α} (member : y ∈ enrolAll key held xs) : y ∈ held ∨ y ∈ xs := by
  induction xs generalizing held with
  | nil => exact .inl member
  | cons x xs ih =>
      rcases ih member with before | later
      · refine (mem_enrol before).imp_right fun is => ?_
        rw [is]
        exact List.mem_cons_self ..
      · exact .inr (List.mem_cons_of_mem _ later)

theorem nodup_enrolAll (once : (held.map key).Nodup) : ((enrolAll key held xs).map key).Nodup := by
  induction xs generalizing held with
  | nil => exact once
  | cons x xs ih =>
      refine ih ?_
      unfold enrol
      split
      · exact once
      · rename_i new
        rw [List.map_append, List.map_singleton]
        exact List.nodup_append.2 ⟨once, List.nodup_singleton _, fun k old k' is same =>
          new (List.mem_singleton.1 is ▸ same ▸ old)⟩

/-- What a class of keys is enrolled to does not depend on the others. -/
theorem filter_enrolAll {p : α → Bool} (byKey : ∀ x y, key x = key y → p x = p y) :
    (enrolAll key held xs).filter p = enrolAll key (held.filter p) (xs.filter p) := by
  induction xs generalizing held with
  | nil => rfl
  | cons x xs ih =>
      have known : p x = true → (key x ∈ (held.filter p).map key ↔ key x ∈ held.map key) := by
        intro chosen
        simp only [List.mem_map, List.mem_filter]
        refine exists_congr fun y => ⟨fun ⟨⟨old, _⟩, same⟩ => ⟨old, same⟩, fun ⟨old, same⟩ => ?_⟩
        exact ⟨⟨old, (byKey y x same).trans chosen⟩, same⟩
      have step : (enrol key held x).filter p =
          if p x then enrol key (held.filter p) x else held.filter p := by
        unfold enrol
        cases chosen : p x with
        | true =>
            simp only [if_true, known chosen]
            split
            · rfl
            · rw [List.filter_append, List.filter_singleton, chosen]
              rfl
        | false =>
            split
            · rfl
            · rw [List.filter_append, List.filter_singleton, chosen]
              exact List.append_nil _
      rw [enrolAll_cons, ih, step, List.filter_cons]
      cases p x <;> rfl

/-- **Enrolling a set is enrolling the set**: when everything held and read is from `all`, and
every key of `all` is held or read, what is held in the end is `all`, in some order. -/
theorem enrolAll_perm {all : List α} (once : (held.map key).Nodup) (distinct : (all.map key).Nodup)
    (heldFrom : ∀ x ∈ held, x ∈ all) (readFrom : ∀ x ∈ xs, x ∈ all)
    (covers : ∀ x ∈ all, key x ∈ held.map key ∨ key x ∈ xs.map key) :
    (enrolAll key held xs).Perm all := by
  have within : ∀ y ∈ enrolAll key held xs, y ∈ all := fun y member =>
    (mem_enrolAll member).elim (heldFrom y) (readFrom y)
  refine (List.perm_ext_iff_of_nodup (.of_map key (nodup_enrolAll once))
    (.of_map key distinct)).2 fun y =>
    ⟨within y, fun member => ?_⟩
  obtain ⟨z, held', same⟩ := List.mem_map.1 (keys_enrolAll.2 (covers y member))
  obtain rfl : z = y := List.inj_on_of_nodup_map distinct (within z held') member same
  exact held'

end

/-! ## Reading on after a cut -/

/-- The reader of `all` is sure of `done`, and holds what a prefix no shorter than that
enrols to `start`. -/
def Resumed (start all done held : List α) : Prop :=
  ∃ far, done <+: far ∧ far <+: all ∧ held = enrolAll key start far

section

variable {key} {start all done held : List α}

theorem Resumed.back {done' : List α} (resumed : Resumed key start all done held)
    (sure : done' <+: done) : Resumed key start all done' held := by
  obtain ⟨far, read, within, rfl⟩ := resumed
  exact ⟨far, sure.trans read, within, rfl⟩

theorem Resumed.grow {all' : List α} (resumed : Resumed key start all done held)
    (longer : all <+: all') : Resumed key start all' done held := by
  obtain ⟨far, read, within, rfl⟩ := resumed
  exact ⟨far, read, within.trans longer, rfl⟩

/-- **Reading on.**  The next elements of the sequence may be read again or for the first
time. -/
theorem Resumed.reads {xs : List α} (resumed : Resumed key start all done held)
    (next : done ++ xs <+: all) : Resumed key start all (done ++ xs) (enrolAll key held xs) := by
  obtain ⟨far, read, within, rfl⟩ := resumed
  rcases List.prefix_or_prefix_of_prefix next within with again | new
  · -- All of it had been read before.
    refine ⟨far, again, within, enrolAll_known fun x member => keys_enrolAll.2 (.inr ?_)⟩
    exact List.mem_map_of_mem (again.subset (List.mem_append_right _ member))
  · -- Some of it had been read before, and the rest is new.
    obtain ⟨ys, rfl⟩ := read
    obtain ⟨zs, split⟩ := new
    obtain rfl : xs = ys ++ zs := by
      rw [List.append_assoc] at split
      exact (List.append_cancel_left split).symm
    refine ⟨done ++ (ys ++ zs), List.prefix_refl _, next, ?_⟩
    have known : enrolAll key (enrolAll key start (done ++ ys)) ys =
        enrolAll key start (done ++ ys) := enrolAll_known fun x member =>
      keys_enrolAll.2 (.inr (List.mem_map_of_mem (List.mem_append_right _ member)))
    rw [enrolAll_append, known, ← enrolAll_append, List.append_assoc]

/-- **Sure of everything.** -/
theorem Resumed.complete (resumed : Resumed key start all all held) :
    held = enrolAll key start all := by
  obtain ⟨far, read, within, rfl⟩ := resumed
  rw [within.eq_of_length_le read.length_le]

end

end ComputerMoney.Theory
