/-
# Theory.FirstMatch -- a table read through its keys

A table is a list of keyed rows, and may have several rows under one key.  Reading it
through a list of keys takes the first row of each key and skips the keys without one.
When every key of the table is asked for, and none is asked for twice, nothing is lost
exactly when no key has two rows; and in a table where none has, the order of the rows does
not matter.
-/
import Mathlib.Data.List.Dedup
import Mathlib.Data.List.Perm.Basic

namespace ComputerMoney.Theory.FirstMatch

set_option autoImplicit false

variable {κ α : Type} [DecidableEq κ] {table : List (κ × α)} {keys : List κ}

/-- The first row of each key. -/
def readBy (table : List (κ × α)) (keys : List κ) : List α := keys.filterMap (table.lookup ·)

theorem lookup_isSome_iff {key : κ} : (table.lookup key).isSome ↔ key ∈ table.map Prod.fst := by
  induction table with
  | nil => simp
  | cons row table ih =>
      obtain ⟨k, a⟩ := row
      by_cases same : key = k
      · simp [same]
      · have skipped : (key == k) = false := by simpa using same
        simp [List.lookup_cons, skipped, same, ih]

/-- A key with a row reads it first. -/
theorem readBy_cons_some {key : κ} {a : α} (found : table.lookup key = some a) :
    readBy table (key :: keys) = a :: readBy table keys := by
  simp only [readBy, List.filterMap_cons, found]

/-- A row under a new key is read under that key only. -/
theorem readBy_cons_new {key : κ} {a : α} (new : key ∉ keys) :
    readBy ((key, a) :: table) keys = readBy table keys := by
  refine List.filterMap_congr fun k member => ?_
  have other : (k == key) = false := by
    simp only [beq_eq_false_iff_ne]
    rintro rfl
    exact new member
  rw [List.lookup_cons, other]

/-- A table without a repeated key is what its own keys read. -/
theorem readBy_self (once : (table.map Prod.fst).Nodup) :
    readBy table (table.map Prod.fst) = table.map Prod.snd := by
  induction table with
  | nil => rfl
  | cons row table ih =>
      obtain ⟨key, a⟩ := row
      obtain ⟨new, rest⟩ := List.nodup_cons.1 once
      have first : ((key, a) :: table).lookup key = some a := by simp
      rw [List.map_cons, List.map_cons, readBy_cons_some first, readBy_cons_new new, ih rest]

/-- Each key of the table is read once. -/
theorem length_readBy (present : ∀ key ∈ keys, key ∈ table.map Prod.fst) :
    (readBy table keys).length = keys.length := by
  induction keys with
  | nil => rfl
  | cons key keys ih =>
      have found := lookup_isSome_iff.2 (present key (List.mem_cons_self ..))
      obtain ⟨a, is⟩ := Option.isSome_iff_exists.1 found
      have rest := ih fun k member => present k (List.mem_cons_of_mem _ member)
      rw [readBy_cons_some is, List.length_cons, List.length_cons, rest]

/-- Keys without a row do not matter, nor does the order of the others. -/
theorem readBy_perm_dedup (asked : keys.Nodup) (all : ∀ key ∈ table.map Prod.fst, key ∈ keys) :
    (readBy table keys).Perm (readBy table (table.map Prod.fst).dedup) := by
  have kept : readBy table keys = readBy table (keys.filter (· ∈ table.map Prod.fst)) := by
    unfold readBy
    rw [List.filterMap_filter]
    refine List.filterMap_congr fun key _ => ?_
    by_cases present : key ∈ table.map Prod.fst
    · simp only [present, decide_true, if_true]
    · have missing : table.lookup key = none := by
        rw [← Option.not_isSome_iff_eq_none, lookup_isSome_iff]
        exact present
      simp only [missing, ite_self]
  rw [kept]
  apply List.Perm.filterMap
  refine (List.perm_ext_iff_of_nodup (asked.filter _) (List.nodup_dedup _)).2 fun key => ?_
  rw [List.mem_filter, List.mem_dedup, decide_eq_true_iff]
  exact ⟨And.right, fun present => ⟨all key present, present⟩⟩

/-- **Reading by keys loses nothing exactly when no key has two rows.** -/
theorem readBy_perm_iff (asked : keys.Nodup) (all : ∀ key ∈ table.map Prod.fst, key ∈ keys) :
    (readBy table keys).Perm (table.map Prod.snd) ↔ (table.map Prod.fst).Nodup := by
  have reads := readBy_perm_dedup asked all
  constructor
  · intro complete
    have lengths := (reads.symm.trans complete).length_eq
    rw [length_readBy fun key member => List.mem_dedup.1 member, List.length_map] at lengths
    have whole := (List.dedup_sublist (table.map Prod.fst)).eq_of_length
      (lengths.trans (List.length_map _).symm)
    exact List.dedup_eq_self.1 whole
  · intro once
    rw [List.dedup_eq_self.2 once, readBy_self once] at reads
    exact reads

/-! ## Tables without repeated keys -/

/-- A table without a repeated key holds at most one row under each. -/
theorem lookup_eq_some_iff (once : (table.map Prod.fst).Nodup) {key : κ} {a : α} :
    table.lookup key = some a ↔ (key, a) ∈ table := by
  induction table with
  | nil => simp
  | cons row table ih =>
      obtain ⟨k, b⟩ := row
      obtain ⟨new, rest⟩ := List.nodup_cons.1 once
      by_cases same : key = k
      · subst same
        have absent : (key, a) ∉ table := fun member => new (List.mem_map.2 ⟨_, member, rfl⟩)
        simp [absent, eq_comm]
      · have skipped : (key == k) = false := by simpa using same
        simp [List.lookup_cons, skipped, same, ih rest]

/-- The order of its rows does not matter. -/
theorem lookup_perm {table' : List (κ × α)} (once : (table.map Prod.fst).Nodup)
    (perm : table'.Perm table) (key : κ) : table'.lookup key = table.lookup key := by
  have once' : (table'.map Prod.fst).Nodup := (perm.map Prod.fst).nodup_iff.2 once
  apply Option.ext
  intro a
  rw [lookup_eq_some_iff once', lookup_eq_some_iff once, perm.mem_iff]

end ComputerMoney.Theory.FirstMatch
