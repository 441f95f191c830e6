import Mathlib.Algebra.Ring.Nat
import Mathlib.Data.List.Basic

/-! # Laying out lists of texts

What a comma-separated list looks like on the page, with blanks allowed around
every item.  The items are of any type; a relation says which texts may stand
for an item.
-/

namespace Layout

/-- Blank characters of the interchange formats in common use. -/
def IsBlank (c : Char) : Prop := c = ' ' ∨ c = '\t' ∨ c = '\n' ∨ c = '\r'

instance : DecidablePred IsBlank := fun c =>
  inferInstanceAs (Decidable (c = ' ' ∨ c = '\t' ∨ c = '\n' ∨ c = '\r'))

/-- A possibly empty run of blanks. -/
def Blanks (w : List Char) : Prop := ∀ c ∈ w, IsBlank c

theorem Blanks.nil : Blanks [] := by
  intro c member
  simp at member

/-- `CommaSep Text items body`: `body` writes the items one after the other,
    separated by commas, each with blanks on both sides. -/
inductive CommaSep {α : Type} (Text : α → List Char → Prop) : List α → List Char → Prop where
  | nil {w} : Blanks w → CommaSep Text [] w
  | single {w s w' item} : Blanks w → Text item s → Blanks w' →
      CommaSep Text [item] (w ++ (s ++ w'))
  | cons {w s w' item items body} : Blanks w → Text item s → Blanks w' → items ≠ [] →
      CommaSep Text items body → CommaSep Text (item :: items) (w ++ (s ++ (w' ++ ',' :: body)))

/-- Items set without any blank, as a writer emits them. -/
def commas : List (List Char) → List Char
  | [] => []
  | [s] => s
  | s :: rest => s ++ ',' :: commas rest

theorem CommaSep.tight {α : Type} {Text : α → List Char → Prop} (print : α → List Char)
    {items : List α} (ok : ∀ item ∈ items, Text item (print item)) :
    CommaSep Text items (commas (items.map print)) := by
  induction items with
  | nil => exact .nil Blanks.nil
  | cons item items ih =>
      rw [List.forall_mem_cons] at ok
      cases items with
      | nil => simpa [commas] using CommaSep.single Blanks.nil ok.1 Blanks.nil
      | cons next items =>
          simpa [commas] using CommaSep.cons Blanks.nil ok.1 Blanks.nil (by simp) (ih ok.2)

/-- A list is no shorter than its items with a comma after each but the last. -/
theorem CommaSep.length_le {α : Type} {Text : α → List Char → Prop} {size : α → Nat}
    {items : List α} {body : List Char} (sep : CommaSep Text items body)
    (each : ∀ item ∈ items, ∀ s, Text item s → size item ≤ s.length) :
    (items.map fun item => size item + 1).sum ≤ body.length + 1 := by
  induction sep with
  | nil => simp
  | @single w s w' item _ text _ =>
      have here := each item (by simp) s text
      simp only [List.map_cons, List.map_nil, List.sum_cons, List.sum_nil, List.length_append]
      omega
  | @cons w s w' item items body _ text _ _ _ ih =>
      rw [List.forall_mem_cons] at each
      have here := each.1 s text
      have later := ih each.2
      simp only [List.map_cons, List.sum_cons, List.length_append, List.length_cons]
      omega

theorem length_commas {xs : List (List Char)} (some : xs ≠ []) :
    (commas xs).length + 1 = (xs.map fun s => s.length + 1).sum := by
  induction xs with
  | nil => exact absurd rfl some
  | cons s xs ih =>
      cases xs with
      | nil => simp [commas]
      | cons s' xs =>
          have later := ih (by simp)
          simp only [commas, List.length_append, List.length_cons, List.map_cons, List.sum_cons]
            at later ⊢
          omega

end Layout
