import Mathlib.Data.List.Basic

/-! # Programs that ask

A program that asks questions and goes on with what it is answered.  Who answers is left
open, so one can say what a program asks as well as what it returns.
-/

variable {κ β ρ : Type}

/-- A program with questions of type `κ` and answers of type `β`. -/
inductive Asks (κ β ρ : Type) where
  | done (result : ρ)
  | ask (question : κ) (next : β → Asks κ β ρ)

namespace Asks

/-- What the program returns when it is answered so. -/
def run (answer : κ → β) : Asks κ β ρ → ρ
  | .done result => result
  | .ask question next => (next (answer question)).run answer

/-- What it asks on the way, in order. -/
def asked (answer : κ → β) : Asks κ β ρ → List κ
  | .done _ => []
  | .ask question next => question :: (next (answer question)).asked answer

/-- Whatever it is answered, it asks nothing else. -/
def Within (allowed : κ → Prop) : Asks κ β ρ → Prop
  | .done _ => True
  | .ask question next => allowed question ∧ ∀ answer, (next answer).Within allowed

theorem Within.asked {allowed : κ → Prop} {program : Asks κ β ρ} (within : program.Within allowed)
    (answer : κ → β) : ∀ question ∈ program.asked answer, allowed question := by
  induction program with
  | done result => simp [Asks.asked]
  | ask question next ih =>
      exact List.forall_mem_cons.mpr ⟨within.1, ih _ (within.2 _)⟩

theorem run_congr {answer answer' : κ → β} {program : Asks κ β ρ}
    (agree : ∀ question ∈ program.asked answer, answer question = answer' question) :
    program.run answer = program.run answer' := by
  induction program with
  | done result => rfl
  | ask question next ih =>
      rw [asked, List.forall_mem_cons] at agree
      rw [run, run, ← agree.1]
      exact ih _ agree.2

end Asks
