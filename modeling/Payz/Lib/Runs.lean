import Mathlib.Data.List.Basic

/-! # Runs of a labelled system

A system is a relation between a state, the label of a step and the next state.  A
run takes the steps of a list of labels one after the other; nothing is said about
who chooses the labels, so a property of all runs is one of all interleavings.
-/

namespace Runs

variable {σ ι : Type} {step : σ → ι → σ → Prop}

/-- From one state to another by the steps with these labels. -/
inductive Run (step : σ → ι → σ → Prop) : σ → List ι → σ → Prop where
  | nil {s} : Run step s [] s
  | cons {s t u label labels} : step s label t → Run step t labels u →
      Run step s (label :: labels) u

theorem Run.append {s t u : σ} {first second : List ι} (before : Run step s first t)
    (after : Run step t second u) : Run step s (first ++ second) u := by
  induction before with
  | nil => exact after
  | cons takes _ ih => exact .cons takes (ih after)

theorem Run.split {s u : σ} {first second : List ι} (run : Run step s (first ++ second) u) :
    ∃ t, Run step s first t ∧ Run step t second u := by
  induction first generalizing s with
  | nil => exact ⟨s, .nil, run⟩
  | cons label first ih =>
      cases run with
      | cons takes rest =>
          obtain ⟨t, before, after⟩ := ih rest
          exact ⟨t, .cons takes before, after⟩

/-- What every admissible step keeps, a run of admissible steps keeps. -/
theorem Run.keeps {P : σ → Prop} {Ok : ι → Prop}
    (one : ∀ s label t, Ok label → P s → step s label t → P t) {s t : σ} {labels : List ι}
    (run : Run step s labels t) (ok : ∀ label ∈ labels, Ok label) (start : P s) : P t := by
  induction run with
  | nil => exact start
  | cons first rest ih =>
      rw [List.forall_mem_cons] at ok
      exact ih ok.2 (one _ _ _ ok.1 start first)

/-- The same for what depends on the labels gone by. -/
theorem Run.history {P : List ι → σ → Prop}
    (one : ∀ past s label t, P past s → step s label t → P (past ++ [label]) t) {s t : σ}
    {past labels : List ι} (run : Run step s labels t) (start : P past s) : P (past ++ labels) t := by
  induction run generalizing past with
  | nil => simpa using start
  | cons first rest ih => simpa using ih (one _ _ _ _ start first)

/-- A step within a run, with the runs before and after it. -/
structure Within (step : σ → ι → σ → Prop) (s : σ) (labels : List ι) (t : σ) (u : σ) (label : ι)
    (v : σ) (rest : List ι) : Prop where
  split : ∃ first, labels = first ++ label :: rest ∧ Run step s first u
  takes : step u label v
  after : Run step v rest t

theorem Within.cons {s r t u v : σ} {label label' : ι} {labels rest : List ι}
    (takes : step s label' r) (within : Within step r labels t u label v rest) :
    Within step s (label' :: labels) t u label v rest := by
  obtain ⟨first, rfl, run⟩ := within.split
  exact ⟨⟨label' :: first, rfl, .cons takes run⟩, within.takes, within.after⟩

/-- What does not hold at first and holds at last comes about in some step. -/
theorem Run.crossing {P : σ → Prop} {s t : σ} {labels : List ι} (run : Run step s labels t)
    (before : ¬ P s) (after : P t) :
    ∃ u label v rest, Within step s labels t u label v rest ∧ ¬ P u ∧ P v := by
  induction run with
  | nil => exact absurd after before
  | @cons s r t label labels takes tail ih =>
      by_cases holds : P r
      · exact ⟨s, label, r, labels, ⟨⟨[], rfl, .nil⟩, takes, tail⟩, before, holds⟩
      · obtain ⟨u, label', v, rest, within, crossed⟩ := ih holds after
        exact ⟨u, label', v, rest, within.cons takes, crossed⟩

/-- Of the steps with some label there is a last one. -/
theorem Run.last {Q : ι → Prop} {s t : σ} {labels : List ι} (run : Run step s labels t)
    (some : ∃ label ∈ labels, Q label) :
    ∃ u label v rest, Within step s labels t u label v rest ∧ Q label ∧ ∀ l ∈ rest, ¬ Q l := by
  induction run with
  | nil => simp at some
  | @cons s r t label labels takes tail ih =>
      by_cases later : ∃ label ∈ labels, Q label
      · obtain ⟨u, label', v, rest, within, last⟩ := ih later
        exact ⟨u, label', v, rest, within.cons takes, last⟩
      · obtain ⟨label', member, holds⟩ := some
        rcases List.mem_cons.mp member with rfl | tailMember
        · exact ⟨s, label', r, labels, ⟨⟨[], rfl, .nil⟩, takes, tail⟩, holds,
            fun l there holds => later ⟨l, there, holds⟩⟩
        · exact absurd ⟨label', tailMember, holds⟩ later

/-! ## Calls that answer -/

/-- Make calls one after the other: the answers, and the state after the last one. -/
def calls {α : Type} (call : σ → ι → α × σ) : σ → List ι → List α × σ
  | s, [] => ([], s)
  | s, i :: rest =>
      let (answer, s) := call s i
      let (answers, s) := calls call s rest
      (answer :: answers, s)

/-- Two systems whose single calls answer alike answer alike in the long run. -/
theorem calls_alike {τ α : Type} {call : σ → ι → α × σ} {call' : τ → ι → α × τ}
    {R : σ → τ → Prop}
    (one : ∀ s t i, R s t → (call s i).1 = (call' t i).1 ∧ R (call s i).2 (call' t i).2)
    {s : σ} {t : τ} (start : R s t) (is : List ι) :
    (calls call s is).1 = (calls call' t is).1 ∧ R (calls call s is).2 (calls call' t is).2 := by
  induction is generalizing s t with
  | nil => exact ⟨rfl, start⟩
  | cons i is ih =>
      obtain ⟨answer, next⟩ := one s t i start
      obtain ⟨answers, last⟩ := ih next
      simp only [calls]
      exact ⟨by rw [answer, answers], last⟩

/-- The same for calls that may fail, and then end the run. -/
def callsM {α : Type} (call : σ → ι → Option (α × σ)) : σ → List ι → Option (List α × σ)
  | s, [] => some ([], s)
  | s, i :: rest => do
      let (answer, s) ← call s i
      let (answers, s) ← callsM call s rest
      some (answer :: answers, s)

/-- Two systems whose single calls fail or answer alike do so in the long run. -/
theorem callsM_alike {τ α : Type} {call : σ → ι → Option (α × σ)}
    {call' : τ → ι → Option (α × τ)} {R : σ → τ → Prop}
    (one : ∀ s t i, R s t →
      Option.Rel (fun x y => x.1 = y.1 ∧ R x.2 y.2) (call s i) (call' t i))
    {s : σ} {t : τ} (start : R s t) (is : List ι) :
    Option.Rel (fun x y => x.1 = y.1 ∧ R x.2 y.2) (callsM call s is) (callsM call' t is) := by
  induction is generalizing s t with
  | nil => exact .some ⟨rfl, start⟩
  | cons i is ih =>
      have first := one s t i start
      rw [callsM, callsM]
      generalize call s i = taken, call' t i = taken' at first
      cases first with
      | none => exact .none
      | some both =>
          obtain ⟨same, related⟩ := both
          have rest := ih related
          dsimp only [Option.bind_eq_bind, Option.bind_some]
          generalize callsM call _ is = more, callsM call' _ is = more' at rest
          cases rest with
          | none => exact .none
          | some both => exact .some ⟨congrArg₂ _ same both.1, both.2⟩

end Runs
