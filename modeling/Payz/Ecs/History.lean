import Payz.Ecs.Ec

/-! # The table after a history of calls

Whatever calls of `ec_set_component` were made since `ec_new`, the table stands for
the finite map that keeps, for each pair, what the last call on that pair attached.
-/

namespace Payz

structure EcCall where
  entity : UInt32
  component : Text
  value : Option Json
  deriving Repr, DecidableEq

def EcCall.isOn (call : EcCall) (entity : UInt32) (component : Text) : Bool :=
  call.entity == entity && call.component == component

def EcCall.apply (ec : Ec) (call : EcCall) : Ec :=
  ecSetComponent ec call.entity call.component call.value

/-- The table after these calls, from `ec_new` on. -/
def ecAfter (calls : List EcCall) : Ec := calls.foldl EcCall.apply ecNew

/-- The datum the last call on this pair attached; none if it detached the
    component, or if there was no call. -/
def lastSet (calls : List EcCall) (entity : UInt32) (component : Text) : Option Json :=
  (calls.filter fun call => call.isOn entity component).getLast?.bind fun call =>
    attached call.value

/-- The table is an implementation of the finite map `m`. -/
structure Ec.Refines (ec : Ec) (m : UInt32 → Text → Option Json) : Prop where
  get : ∀ entity component, ecGetComponent ec entity component =
    match m entity component with
    | some datum => (true, datum)
    | none => (false, nullDatum)
  noEmptyRow : ∀ (entity : UInt32) (row : EcEntityrow), ec.entityMap[entity]? = some row → row ≠ ∅
  ownName : ∀ (entity : UInt32) (row : EcEntityrow) (component : Text) (cell : EcCell),
    ec.entityMap[entity]? = some row → row[component]? = some cell → cell.component = component
  noAssertion : ∀ entity fault, ecGetComponents ec entity ≠ .error fault
  null : ∀ entity, ecGetComponents ec entity = .ok none ↔ ∀ component, m entity component = none
  listed : ∀ entity names, ecGetComponents ec entity = .ok (some names) →
    (names.Pairwise fun a b => compare a b = .lt) ∧
      ∀ component, component ∈ names ↔ (m entity component).isSome

theorem Ec.Consistent.refines {ec : Ec} (consistent : ec.Consistent) : ec.Refines ec.cell where
  get entity component := by
    rw [ecGetComponent_eq, Ec.current]
    cases ec.cell entity component <;> rfl
  noEmptyRow := consistent.noEmptyRow
  ownName entity row component cell found there := by
    have stored : Rows.lookup ec.entityMap entity component = some cell := by
      rw [Rows.lookup_of_row found, there]
    exact consistent.ownName stored
  noAssertion entity fault := by
    rw [ecGetComponents_eq consistent]
    simp
  null entity := by
    rw [ecGetComponents_eq consistent]
    constructor
    · intro absent component
      have empty : ec.components entity = [] := by simpa using absent
      have unlisted : component ∉ ec.components entity := by simp [empty]
      rwa [Ec.mem_components, Option.not_isSome_iff_eq_none] at unlisted
    · intro blank
      have empty : ec.components entity = [] := by
        rw [List.eq_nil_iff_forall_not_mem]
        intro component
        rw [Ec.mem_components, blank]
        simp
      rw [if_pos empty]
  listed entity names same := by
    rw [ecGetComponents_eq consistent] at same
    have listing : names = ec.components entity := by
      split_ifs at same with empty
      · simp at same
      · simpa using same.symm
    subst listing
    exact ⟨ec.components_ordered entity, fun component => Ec.mem_components⟩

theorem ecAfter_append (calls : List EcCall) (call : EcCall) :
    ecAfter (calls ++ [call]) = call.apply (ecAfter calls) := by
  simp [ecAfter]

theorem consistent_ecAfter (calls : List EcCall) : (ecAfter calls).Consistent := by
  induction calls using List.reverseRecOn with
  | nil => exact Ec.consistent_ecNew
  | append_singleton calls call ih =>
      rw [ecAfter_append]
      exact ih.set call.entity call.component call.value

theorem lastSet_append (calls : List EcCall) (call : EcCall) (entity : UInt32) (component : Text) :
    lastSet (calls ++ [call]) entity component =
      if call.entity = entity ∧ call.component = component then attached call.value
      else lastSet calls entity component := by
  split_ifs with same
  · have on : call.isOn entity component = true := by simpa [EcCall.isOn] using same
    simp [lastSet, List.filter_append, on]
  · have off : call.isOn entity component = false := by simpa [EcCall.isOn] using same
    simp [lastSet, List.filter_append, off]

/-- The cells of the table are what the last calls left in them. -/
theorem cell_ecAfter (calls : List EcCall) (entity : UInt32) (component : Text) :
    (ecAfter calls).cell entity component = lastSet calls entity component := by
  induction calls using List.reverseRecOn with
  | nil => simp [ecAfter, ecNew, Ec.cell, lastSet]
  | append_singleton calls call ih =>
      rw [ecAfter_append, lastSet_append, EcCall.apply, cell_ecSetComponent, ih]

/-- The only JSON datum the plugin takes for a `null` is `null`. -/
theorem Json.WellFormed.jsonTokIsNull_iff {j : Json} (wellFormed : j.WellFormed) :
    j.jsonTokIsNull = true ↔ j = nullDatum := by
  constructor
  · intro null
    cases wellFormed with
    | string | array | object => simp [Json.jsonTokIsNull] at null
    | primitive text =>
        rcases text with rfl | rfl | rfl | ⟨c, rest, rfl, first, -⟩
        · rfl
        · exact absurd null (by decide)
        · exact absurd null (by decide)
        · simp only [Json.jsonTokIsNull, List.head?_cons, beq_iff_eq, Option.some.injEq] at null
          subst null
          exact absurd first (by decide)
  · rintro rfl
    decide

/-- The table refines a finite map over every history of calls, each of which
    changes the value of no other pair than its own. -/
theorem ec_refines_map (calls : List EcCall) :
    (ecAfter calls).Refines (lastSet calls) ∧
      (∀ call entity component, ¬ (call.entity = entity ∧ call.component = component) →
        ecGetComponent (ecAfter (calls ++ [call])) entity component =
          ecGetComponent (ecAfter calls) entity component) ∧
      ∀ datum : Json, datum.WellFormed →
        (attached (some datum) = none ↔ datum = nullDatum) := by
  refine ⟨?_, ?_, ?_⟩
  · have view : (ecAfter calls).cell = lastSet calls := by
      funext entity component
      exact cell_ecAfter calls entity component
    rw [← view]
    exact (consistent_ecAfter calls).refines
  · intro call entity component other
    rw [ecGetComponent_eq, ecGetComponent_eq, Ec.current, Ec.current, cell_ecAfter, cell_ecAfter,
      lastSet_append, if_neg other]
  · intro datum wellFormed
    rw [← wellFormed.jsonTokIsNull_iff, attached_some]
    split_ifs with null <;> simp [null]

end Payz
