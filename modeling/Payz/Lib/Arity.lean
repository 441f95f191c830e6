import Mathlib.Data.List.Basic

/-! # Forests written in preorder

A forest is written down as the list of the arities of its nodes, each node in front of its
children.  Reading such a list from the left keeps count of the trees that are still due.
-/

namespace Arity

/-- The trees still due behind these nodes, when so many are due in front of them; `none`
    if a node stands where no tree is due. -/
def due : Nat → List Nat → Option Nat
  | m, [] => some m
  | 0, _ :: _ => none
  | m + 1, a :: as => due (a + m) as

theorem due_append (m : Nat) (front back : List Nat) :
    due m (front ++ back) = (due m front).bind fun d => due d back := by
  fun_induction due m front with
  | case1 => rfl
  | case2 => rfl
  | case3 m a as ih =>
      rw [List.cons_append, due]
      exact ih

/-- More trees due in front are due behind as well. -/
theorem due_add {m d : Nat} {nodes : List Nat} (k : Nat) (read : due m nodes = some d) :
    due (m + k) nodes = some (d + k) := by
  induction nodes generalizing m with
  | nil =>
      cases read
      rfl
  | cons a as ih =>
      cases m with
      | zero => cases read
      | succ m =>
          rw [due] at read
          have later := ih read
          rw [Nat.succ_add, due, ← Nat.add_assoc]
          exact later

/-- A child more at some node is a tree more that is due in the end. -/
theorem due_modify {m d i : Nat} {nodes : List Nat} (read : due m nodes = some d)
    (inside : i < nodes.length) : due m (nodes.modify i (· + 1)) = some (d + 1) := by
  induction nodes generalizing m i with
  | nil => cases inside
  | cons a as ih =>
      cases m with
      | zero => cases read
      | succ m =>
          rw [due] at read
          cases i with
          | zero =>
              rw [List.modify_zero_cons, due, Nat.add_right_comm]
              exact due_add 1 read
          | succ i =>
              rw [List.modify_succ_cons, due]
              exact ih read (Nat.lt_of_succ_lt_succ inside)

/-- The same for the nodes from `i` to `e`, none of which but the last gets a child. -/
theorem due_window_modify {nodes : List Nat} {m d i e s : Nat} (order : i < e ∧ e ≤ nodes.length)
    (read : due m ((nodes.take e).drop i) = some d) (outside : s < i ∨ e ≤ s + 1) :
    due m (((nodes.modify s (· + 1)).take e).drop i) = some (if s + 1 = e then d + 1 else d) := by
  rw [List.take_modify]
  rcases outside with front | back
  · rw [List.drop_modify_of_lt _ _ _ _ front, if_neg (by omega), read]
  · rw [List.drop_modify_of_ge _ _ _ _ (by omega)]
    by_cases last : s + 1 = e
    · rw [if_pos last]
      refine due_modify read ?_
      rw [List.length_drop, List.length_take]
      omega
    · rw [if_neg last, List.modify_eq_self, read]
      rw [List.length_drop, List.length_take]
      omega

/-- Where no tree is due any more, no node follows. -/
theorem due_zero_append {m : Nat} {front back : List Nat} (done : due m front = some 0)
    (read : due m (front ++ back) ≠ none) : back = [] := by
  rw [due_append, done, Option.bind_some] at read
  cases back with
  | nil => rfl
  | cons a as => exact absurd rfl read

end Arity
