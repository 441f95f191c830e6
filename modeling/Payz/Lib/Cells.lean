import Mathlib.Algebra.Order.Group.Nat

/-! # Memory cells

A stretch of memory whose cells are `none` until something is written to them.  A store or a
load that leaves the stretch fails, and so does a load of what was never written.
-/

namespace Cells

variable {α : Type} {cells cells' : List (Option α)} {items old : List α} {pos n : Nat}

/-- Write some items from `pos` on. -/
def store (cells : List (Option α)) (pos : Nat) (items : List α) : Option (List (Option α)) :=
  if pos + items.length ≤ cells.length then
    some (cells.take pos ++ (items.map some ++ cells.drop (pos + items.length)))
  else none

/-- Read the cells of a list one by one. -/
def loadAll : List (Option α) → Option (List α)
  | [] => some []
  | none :: _ => none
  | some x :: cells => (loadAll cells).map (x :: ·)

/-- Read `n` items from `pos` on. -/
def load (cells : List (Option α)) (pos n : Nat) : Option (List α) :=
  if pos + n ≤ cells.length then loadAll ((cells.drop pos).take n) else none

/-- Copy `n` cells from `pos` on to the front. -/
def moveDown (cells : List (Option α)) (pos n : Nat) : List (Option α) :=
  (cells.drop pos).take n ++ cells.drop n

/-- These items stand from `pos` on. -/
def Holds (cells : List (Option α)) (pos : Nat) (items : List α) : Prop :=
  ∀ i x, items[i]? = some x → cells[pos + i]? = some (some x)

/-! ## What stands where -/

@[simp] theorem holds_nil : Holds cells pos [] := fun i x found => by simp at found

theorem Holds.room (holds : Holds cells pos items) (nonempty : items ≠ []) :
    pos + items.length ≤ cells.length := by
  have positive : 0 < items.length := List.length_pos_iff.mpr nonempty
  have last := holds (items.length - 1) _ (List.getElem?_eq_getElem (by omega))
  obtain ⟨inside, -⟩ := List.getElem?_eq_some_iff.mp last
  omega

theorem holds_append {more : List α} :
    Holds cells pos (items ++ more) ↔
      Holds cells pos items ∧ Holds cells (pos + items.length) more := by
  constructor
  · intro holds
    refine ⟨fun i x found => ?_, fun i x found => ?_⟩
    · obtain ⟨inside, -⟩ := List.getElem?_eq_some_iff.mp found
      exact holds i x (by rwa [List.getElem?_append_left inside])
    · rw [Nat.add_assoc]
      exact holds _ x (by rwa [List.getElem?_append_right (Nat.le_add_right _ _),
        Nat.add_sub_cancel_left])
  · rintro ⟨front, back⟩ i x found
    by_cases inside : i < items.length
    · rw [List.getElem?_append_left inside] at found
      exact front i x found
    · rw [not_lt] at inside
      rw [List.getElem?_append_right inside] at found
      have there := back _ x found
      rwa [Nat.add_assoc, Nat.add_sub_cancel' inside] at there

theorem Holds.grown (holds : Holds cells pos items) (more : List (Option α)) :
    Holds (cells ++ more) pos items := fun i x found => by
  have there := holds i x found
  obtain ⟨inside, -⟩ := List.getElem?_eq_some_iff.mp there
  rwa [List.getElem?_append_left inside]

/-- The items that are left when some are taken from the front. -/
theorem Holds.drop (holds : Holds cells pos items) (n : Nat) :
    Holds cells (pos + n) (items.drop n) := fun i x found => by
  rw [List.getElem?_drop] at found
  rw [Nat.add_assoc]
  exact holds (n + i) x found

theorem Holds.copied (holds : Holds cells pos items) :
    Holds ((cells.drop pos).take items.length) 0 items := fun i x found => by
  obtain ⟨inside, -⟩ := List.getElem?_eq_some_iff.mp found
  rw [Nat.zero_add, List.getElem?_take_of_lt inside, List.getElem?_drop]
  exact holds i x found

theorem Holds.moved (holds : Holds cells pos items) :
    Holds (moveDown cells pos items.length) 0 items := holds.copied.grown _

theorem length_moveDown (inside : pos + n ≤ cells.length) :
    (moveDown cells pos n).length = cells.length := by
  simp only [moveDown, List.length_append, List.length_take, List.length_drop]
  omega

/-! ## Stores -/

/-- What a store does: its items stand there, and what stands elsewhere still does. -/
structure Stored (cells : List (Option α)) (pos : Nat) (items : List α)
    (cells' : List (Option α)) : Prop where
  length : cells'.length = cells.length
  here : Holds cells' pos items
  elsewhere : ∀ q old, Holds cells q old → q + old.length ≤ pos ∨ pos + items.length ≤ q →
    Holds cells' q old

theorem store_inside (inside : pos + items.length ≤ cells.length) :
    ∃ cells', store cells pos items = some cells' ∧ Stored cells pos items cells' := by
  refine ⟨_, if_pos inside, ?_, fun i x found => ?_, fun q old holds apart i x found => ?_⟩
  · simp only [List.length_append, List.length_take, List.length_map, List.length_drop]
    omega
  · obtain ⟨before, -⟩ := List.getElem?_eq_some_iff.mp found
    have front : (cells.take pos).length = pos := by
      rw [List.length_take]
      omega
    rw [List.getElem?_append_right (by omega), front, Nat.add_sub_cancel_left,
      List.getElem?_append_left (by rwa [List.length_map]), List.getElem?_map, found]
    rfl
  · have there := holds i x found
    obtain ⟨before, -⟩ := List.getElem?_eq_some_iff.mp found
    obtain ⟨within, -⟩ := List.getElem?_eq_some_iff.mp there
    have front : (cells.take pos).length = pos := by
      rw [List.length_take]
      omega
    rcases apart with left | right
    · rw [List.getElem?_append_left (by omega), List.getElem?_take_of_lt (by omega)]
      exact there
    · rw [List.getElem?_append_right (by omega), front,
        List.getElem?_append_right (by rw [List.length_map]; omega), List.getElem?_drop,
        List.length_map]
      have position : pos + items.length + (q + i - pos - items.length) = q + i := by omega
      rw [position]
      exact there

theorem length_of_store (stored : store cells pos items = some cells') :
    cells'.length = cells.length := by
  rw [store] at stored
  split_ifs at stored with inside
  cases stored
  simp only [List.length_append, List.length_take, List.length_map, List.length_drop]
  omega

/-! ## Loads -/

theorem loadAll_map_some (items : List α) : loadAll (items.map some) = some items := by
  induction items with
  | nil => rfl
  | cons x items ih => rw [List.map_cons, loadAll, ih, Option.map_some]

theorem Holds.load (holds : Holds cells pos items) (inside : pos + items.length ≤ cells.length) :
    load cells pos items.length = some items := by
  have same : (cells.drop pos).take items.length = items.map some := by
    refine List.ext_getElem? fun i => ?_
    rw [List.getElem?_map]
    cases found : items[i]? with
    | some x =>
        obtain ⟨before, -⟩ := List.getElem?_eq_some_iff.mp found
        rw [List.getElem?_take_of_lt before, List.getElem?_drop, holds i x found]
        rfl
    | none =>
        rw [List.getElem?_eq_none_iff] at found
        exact List.getElem?_eq_none (by rw [List.length_take]; omega)
  rw [Cells.load, if_pos inside, same, loadAll_map_some]

end Cells
