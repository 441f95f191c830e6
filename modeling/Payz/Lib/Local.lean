import Mathlib.Data.Set.Function

/-! # Actions on part of a state

A state is seen as a family of values, one for each key.  An action is local to some keys
if it changes the values of no others, and what it does, its outcome included, depends
on no others.  Local actions on disjoint keys commute.
-/

namespace Locality

variable {σ κ ν ε ω ω' : Type}

/-- An action that reads and writes these keys only, on states with some invariant. -/
structure Local (view : σ → κ → ν) (Inv : σ → Prop) (keys : Set κ)
    (act : σ → Except ε (σ × ω)) : Prop where
  keeps : ∀ {s s' out}, Inv s → act s = .ok (s', out) → Inv s'
  frame : ∀ {s s' out}, Inv s → act s = .ok (s', out) → Set.EqOn (view s') (view s) keysᶜ
  agree : ∀ {s t s' out}, Inv s → Inv t → Set.EqOn (view s) (view t) keys →
    act s = .ok (s', out) → ∃ t', act t = .ok (t', out) ∧ Set.EqOn (view s') (view t') keys

variable {view : σ → κ → ν} {Inv : σ → Prop} {keys keys' : Set κ}

/-- Two local actions with disjoint keys can be swapped, with the same outcomes. -/
theorem Local.swap {act : σ → Except ε (σ × ω)} {act' : σ → Except ε (σ × ω')}
    (first : Local view Inv keys act) (second : Local view Inv keys' act')
    (ext : ∀ {s t}, Inv s → Inv t → view s = view t → s = t) (disjoint : ∀ k ∈ keys, k ∉ keys')
    {s s₁ s₂ : σ} {out : ω} {out' : ω'} (inv : Inv s) (one : act s = .ok (s₁, out))
    (two : act' s₁ = .ok (s₂, out')) :
    ∃ t₁, act' s = .ok (t₁, out') ∧ act t₁ = .ok (s₂, out) := by
  have others : keys' ⊆ keysᶜ := fun k mine' mine => disjoint k mine mine'
  have others' : keys ⊆ keys'ᶜ := disjoint
  have inv₁ := first.keeps inv one
  have frame₁ := first.frame inv one
  have frame₂ := second.frame inv₁ two
  obtain ⟨t₁, two', agree₂⟩ := second.agree inv₁ inv (frame₁.mono others) two
  have invT := second.keeps inv two'
  have frameT := second.frame inv two'
  obtain ⟨t₂, one', agree₁⟩ := first.agree inv invT (frameT.mono others').symm one
  have frameT' := first.frame invT one'
  refine ⟨t₁, two', ?_⟩
  have same : s₂ = t₂ := by
    refine ext (second.keeps inv₁ two) (first.keeps invT one') (funext fun k => ?_)
    by_cases mine : k ∈ keys
    · exact (frame₂ (others' mine)).trans (agree₁ mine)
    · by_cases mine' : k ∈ keys'
      · exact (agree₂ mine').trans (frameT' mine).symm
      · exact (frame₂ mine').trans ((frame₁ mine).trans
          ((frameT mine').symm.trans (frameT' mine).symm))
  rw [one', same]

end Locality
