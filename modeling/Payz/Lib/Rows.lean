import Mathlib.Data.List.Basic

/-! # Tables of rows

A table maps keys to rows and a row maps names to cells.  A row exists exactly as
long as it has a cell, so a table is a finite map from pairs and nothing else.
-/

namespace Rows

variable {κ ν α : Type} [Ord κ] [Ord ν]

/-- A map from keys to rows. -/
abbrev Table (κ ν α : Type) [Ord κ] [Ord ν] : Type :=
  Std.ExtTreeMap κ (Std.ExtTreeMap ν α)

variable [Std.TransOrd κ] [Std.LawfulEqOrd κ] [Std.TransOrd ν] [Std.LawfulEqOrd ν]

/-- The cell of one pair. -/
def lookup (t : Table κ ν α) (k : κ) (n : ν) : Option α := t[k]?.bind fun row => row[n]?

/-- The names of the row under a key, in increasing order. -/
def names (t : Table κ ν α) (k : κ) : List ν := (t[k]?.map fun row => row.keys).getD []

/-- No row is kept without a cell. -/
def NoEmptyRow (t : Table κ ν α) : Prop :=
  ∀ (k : κ) (row : Std.ExtTreeMap ν α), t[k]? = some row → row ≠ ∅

/-- Put a cell into its row. -/
def store (t : Table κ ν α) (k : κ) (n : ν) (a : α) : Table κ ν α :=
  t.insert k ((t[k]?.getD ∅).insert n a)

/-- Take a cell out of its row, and the row with its last cell. -/
def remove (t : Table κ ν α) (k : κ) (n : ν) : Table κ ν α :=
  match t[k]? with
  | none => t
  | some row =>
      match row[n]? with
      | none => t
      | some _ => if (row.erase n).isEmpty then t.erase k else t.insert k (row.erase n)

omit [Std.LawfulEqOrd κ] [Std.LawfulEqOrd ν] in
@[simp] theorem lookup_empty (k : κ) (n : ν) : lookup (∅ : Table κ ν α) k n = none := by
  simp [lookup]

omit [Std.LawfulEqOrd κ] [Std.TransOrd ν] [Std.LawfulEqOrd ν] in
theorem noEmptyRow_empty : NoEmptyRow (∅ : Table κ ν α) := by
  intro k row found
  simp at found

section Extensional

omit [Std.LawfulEqOrd κ] [Std.LawfulEqOrd ν] in
theorem lookup_of_row {t : Table κ ν α} {k : κ} {row : Std.ExtTreeMap ν α}
    (found : t[k]? = some row) (n : ν) : lookup t k n = row[n]? := by
  simp [lookup, found]

omit [Std.LawfulEqOrd κ] in
theorem row_eq_none_iff {t : Table κ ν α} (noEmpty : NoEmptyRow t) (k : κ) :
    t[k]? = none ↔ ∀ n, lookup t k n = none := by
  constructor
  · intro absent n
    simp [lookup, absent]
  · intro blank
    cases found : t[k]? with
    | none => rfl
    | some row =>
        refine absurd (Std.ExtTreeMap.ext_getElem? fun n => ?_) (noEmpty k row found)
        rw [← lookup_of_row found n, blank n]
        simp

omit [Std.LawfulEqOrd κ] in
theorem mem_iff_lookup {t : Table κ ν α} (noEmpty : NoEmptyRow t) (k : κ) :
    k ∈ t ↔ ∃ n, (lookup t k n).isSome := by
  rw [Std.ExtTreeMap.mem_iff_isSome_getElem?, ← Option.ne_none_iff_isSome, Ne,
    row_eq_none_iff noEmpty, not_forall]
  exact exists_congr fun n => Option.ne_none_iff_isSome

/-- Tables without empty rows are equal when they agree on every pair. -/
theorem ext_lookup {t u : Table κ ν α} (tRows : NoEmptyRow t) (uRows : NoEmptyRow u)
    (same : ∀ k n, lookup t k n = lookup u k n) : t = u := by
  refine Std.ExtTreeMap.ext_getElem? fun k => ?_
  cases tk : t[k]? with
  | none =>
      refine ((row_eq_none_iff uRows k).mpr fun n => ?_).symm
      rw [← same, (row_eq_none_iff tRows k).mp tk]
  | some row =>
      cases uk : u[k]? with
      | none =>
          have blank : t[k]? = none := (row_eq_none_iff tRows k).mpr fun n => by
            rw [same, (row_eq_none_iff uRows k).mp uk]
          rw [tk] at blank
          cases blank
      | some row' =>
          congr 1
          refine Std.ExtTreeMap.ext_getElem? fun n => ?_
          rw [← lookup_of_row tk, ← lookup_of_row uk, same]

end Extensional

section Updates

variable [DecidableEq κ] [DecidableEq ν]

theorem lookup_store (t : Table κ ν α) (k k' : κ) (n n' : ν) (a : α) :
    lookup (store t k n a) k' n' = if k = k' ∧ n = n' then some a else lookup t k' n' := by
  by_cases sameKey : k = k'
  · subst sameKey
    by_cases sameName : n = n'
    · simp [lookup, store, sameName]
    · cases found : t[k]? with
      | none => simp [lookup, store, found, sameName]
      | some row => simp [lookup, store, Std.ExtTreeMap.getElem?_insert, found, sameName]
  · simp [lookup, store, Std.ExtTreeMap.getElem?_insert, sameKey]

theorem lookup_remove (t : Table κ ν α) (k k' : κ) (n n' : ν) :
    lookup (remove t k n) k' n' = if k = k' ∧ n = n' then none else lookup t k' n' := by
  have untouched : lookup t k n = none →
      lookup t k' n' = if k = k' ∧ n = n' then none else lookup t k' n' := by
    intro absent
    split_ifs with same
    · obtain ⟨rfl, rfl⟩ := same
      exact absent
    · rfl
  unfold remove
  cases found : t[k]? with
  | none => exact untouched (by simp [lookup, found])
  | some row =>
      simp only
      cases there : row[n]? with
      | none => exact untouched (by simp [lookup, found, there])
      | some a =>
          simp only
          split_ifs with last same same
          · obtain ⟨rfl, -⟩ := same
            simp [lookup]
          · by_cases sameKey : k = k'
            · subst sameKey
              have sameName : n ≠ n' := fun equal => same ⟨rfl, equal⟩
              have gone : (row.erase n)[n']? = none := by
                simp [Std.ExtTreeMap.isEmpty_iff.mp last]
              rw [lookup_of_row found]
              simpa [lookup, Std.ExtTreeMap.getElem?_erase, sameName] using gone.symm
            · simp [lookup, Std.ExtTreeMap.getElem?_erase, sameKey]
          · obtain ⟨rfl, rfl⟩ := same
            simp [lookup]
          · by_cases sameKey : k = k'
            · subst sameKey
              have sameName : n ≠ n' := fun equal => same ⟨rfl, equal⟩
              rw [lookup_of_row found]
              simp [lookup, Std.ExtTreeMap.getElem?_erase, sameName]
            · simp [lookup, Std.ExtTreeMap.getElem?_insert, sameKey]

omit [DecidableEq ν] in
theorem NoEmptyRow.store {t : Table κ ν α} (noEmpty : NoEmptyRow t) (k : κ) (n : ν) (a : α) :
    NoEmptyRow (store t k n a) := by
  intro k' row found
  by_cases same : k = k'
  · subst same
    simp only [Rows.store, Std.ExtTreeMap.getElem?_insert_self, Option.some.injEq] at found
    rintro rfl
    have cell : ((t[k]?.getD ∅).insert n a)[n]? = some a := by simp
    rw [found] at cell
    simp at cell
  · simp only [Rows.store, Std.ExtTreeMap.getElem?_insert, Std.LawfulEqOrd.compare_eq_iff_eq, same,
      if_false] at found
    exact noEmpty k' row found

omit [Std.LawfulEqOrd κ] [Std.LawfulEqOrd ν] [DecidableEq κ] [DecidableEq ν] in
theorem NoEmptyRow.remove {t : Table κ ν α} (noEmpty : NoEmptyRow t) (k : κ) (n : ν) :
    NoEmptyRow (remove t k n) := by
  unfold Rows.remove
  cases there : t[k]? with
  | none => exact noEmpty
  | some old =>
      simp only
      cases old[n]? with
      | none => exact noEmpty
      | some a =>
          simp only
          split_ifs with last
          · intro k' row found
            rw [Std.ExtTreeMap.getElem?_erase] at found
            split_ifs at found
            exact noEmpty k' row found
          · intro k' row found
            rw [Std.ExtTreeMap.getElem?_insert] at found
            split_ifs at found with same
            · cases found
              exact fun empty => last (Std.ExtTreeMap.isEmpty_iff.mpr empty)
            · exact noEmpty k' row found

end Updates

section Names

omit [Std.LawfulEqOrd κ] in
theorem mem_names (t : Table κ ν α) (k : κ) (n : ν) :
    n ∈ names t k ↔ (lookup t k n).isSome := by
  cases found : t[k]? with
  | none => simp [names, lookup, found]
  | some row => simp [names, lookup, found]

omit [Std.LawfulEqOrd κ] [Std.LawfulEqOrd ν] in
theorem names_ordered (t : Table κ ν α) (k : κ) :
    (names t k).Pairwise fun a b => compare a b = .lt := by
  cases found : t[k]? with
  | none => simp [names, found]
  | some row => simpa [names, found] using Std.ExtTreeMap.ordered_keys

omit [Std.LawfulEqOrd κ] in
theorem names_nodup (t : Table κ ν α) (k : κ) : (names t k).Nodup := by
  refine (names_ordered t k).imp ?_
  rintro a b less rfl
  simp at less

end Names

end Rows
