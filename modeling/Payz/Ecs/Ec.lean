import Mathlib.Data.List.Induction
import Payz.Json.Grammar
import Payz.Lib.Rows

/-! # The entity-component table

`plugins/payz/ecs/ec.c`.  The ccan `intmap` and `strmap` are finite maps iterated in
key order; `strmap` orders keys by their bytes, which is the order of the code
points they encode.

The table keeps two nested maps, and a row only as long as it has a cell.  Seen
from outside it is a finite map from entity and component name to a JSON datum,
`Ec.cell`.
-/

namespace Payz

/-- What ends the process, or would let it read outside of an array.  The assertion
    that a system is not registered twice has its own name. -/
inductive Fault where
  | assertion
  | eexist
  | outOfBounds
  deriving Repr, DecidableEq

structure EcCell where
  component : Text
  datum : Json
  deriving Repr, DecidableEq

/-- `struct ec_entityrow`: the `component_map`. -/
abbrev EcEntityrow : Type := Std.ExtTreeMap Text EcCell

structure Ec where
  nextEntity : UInt32
  entityMap : Std.ExtTreeMap UInt32 EcEntityrow

/-- The datum handed out for a component that is not attached. -/
def nullDatum : Json := .primitive "null".toList

def ecNew : Ec := ⟨1, ∅⟩

/-- `ec_newentity`: the counter wraps around. -/
def ecNewentity (ec : Ec) : UInt32 × Ec :=
  (ec.nextEntity, { ec with nextEntity := ec.nextEntity + 1 })

/-- `ec_get_entity_bounds`: the upper one wraps around. -/
def ecGetEntityBounds (ec : Ec) : UInt32 × UInt32 :=
  match ec.entityMap.minKey?, ec.entityMap.maxKey? with
  | some min, some max => (min, max + 1)
  | _, _ => (0, 0)

/-- `ec_get_components`: `none` for `NULL`. -/
def ecGetComponents (ec : Ec) (entity : UInt32) : Except Fault (Option (List Text)) :=
  match ec.entityMap[entity]? with
  | none => .ok none
  | some entityrow =>
      let components := entityrow.foldl (fun components name _ => components ++ [name]) []
      if components.length = 0 then .error .assertion else .ok (some components)

def ecGetComponent (ec : Ec) (entity : UInt32) (component : Text) : Bool × Json :=
  match ec.entityMap[entity]? with
  | none => (false, nullDatum)
  | some entityrow =>
      match entityrow[component]? with
      | none => (false, nullDatum)
      | some cell => (true, cell.datum)

/-- The detaching half of `ec_set_component`. -/
def ecDetach (ec : Ec) (entity : UInt32) (component : Text) : Ec :=
  match ec.entityMap[entity]? with
  | none => ec
  | some entityrow =>
      match entityrow[component]? with
      | none => ec
      | some _ =>
          let entityrow := entityrow.erase component
          { ec with
            entityMap :=
              if entityrow.isEmpty then ec.entityMap.erase entity
              else ec.entityMap.insert entity entityrow }

/-- The attaching half of `ec_set_component`.  `strmap_add` and `uintmap_add` leave
    an existing entry alone, which is why the old cell is deleted first. -/
def ecAttach (ec : Ec) (entity : UInt32) (component : Text) (datum : Json) : Ec :=
  match ec.entityMap[entity]? with
  | none =>
      let entityrow : EcEntityrow := (∅ : EcEntityrow).insertIfNew component ⟨component, datum⟩
      { ec with entityMap := ec.entityMap.insertIfNew entity entityrow }
  | some entityrow =>
      let entityrow :=
        match entityrow[component]? with
        | none => entityrow
        | some _ => entityrow.erase component
      { ec with
        entityMap := ec.entityMap.insert entity
          (entityrow.insertIfNew component ⟨component, datum⟩) }

/-- `ec_set_component`: `none` for a `NULL` buffer and token. -/
def ecSetComponent (ec : Ec) (entity : UInt32) (component : Text) : Option Json → Ec
  | none => ecDetach ec entity component
  | some datum =>
      if datum.jsonTokIsNull then ecDetach ec entity component
      else ecAttach ec entity component datum

/-- `ec_set_component_datuml` and `ec_set_component_datum`: the text is parsed first.
    A text that does not parse trips the assertion that buffer and token are both
    `NULL` or both not. -/
def ecSetComponentDatum (ec : Ec) (entity : UInt32) (component : Text) :
    Option Text → Except Fault Ec
  | none => .ok (ecSetComponent ec entity component none)
  | some value =>
      match jsonParseSimple value with
      | none => .error .assertion
      | some datum => .ok (ecSetComponent ec entity component (some datum))

/-! ## The finite map -/

namespace Ec

/-- The datum attached to an entity under a component name. -/
def cell (ec : Ec) (entity : UInt32) (component : Text) : Option Json :=
  (Rows.lookup ec.entityMap entity component).map EcCell.datum

/-- The datum handed out for a component: `null` if it is detached. -/
def current (ec : Ec) (entity : UInt32) (component : Text) : Json :=
  (ec.cell entity component).getD nullDatum

/-- The names of the components attached to an entity, in byte order. -/
def components (ec : Ec) (entity : UInt32) : List Text := Rows.names ec.entityMap entity

/-- What the two maps keep to. -/
structure Consistent (ec : Ec) : Prop where
  noEmptyRow : Rows.NoEmptyRow ec.entityMap
  ownName : ∀ {entity component cell},
    Rows.lookup ec.entityMap entity component = some cell → cell.component = component
  notNull : ∀ {entity component cell},
    Rows.lookup ec.entityMap entity component = some cell → cell.datum.jsonTokIsNull = false

/-- Every datum in the table satisfies `P`. -/
def All (P : Json → Prop) (ec : Ec) : Prop :=
  ∀ {entity component datum}, ec.cell entity component = some datum → P datum

theorem mem_components {ec : Ec} {entity : UInt32} {component : Text} :
    component ∈ ec.components entity ↔ (ec.cell entity component).isSome := by
  rw [components, Rows.mem_names, cell, Option.isSome_map]

theorem components_ordered (ec : Ec) (entity : UInt32) :
    (ec.components entity).Pairwise fun a b => compare a b = .lt :=
  Rows.names_ordered ec.entityMap entity

theorem components_nodup (ec : Ec) (entity : UInt32) : (ec.components entity).Nodup :=
  Rows.names_nodup ec.entityMap entity

/-- Consistent tables that agree on every cell are the same table. -/
theorem ext_cell {ec ec' : Ec} (consistent : ec.Consistent) (consistent' : ec'.Consistent)
    (next : ec.nextEntity = ec'.nextEntity)
    (same : ∀ entity component, ec.cell entity component = ec'.cell entity component) :
    ec = ec' := by
  have maps : ec.entityMap = ec'.entityMap := by
    refine Rows.ext_lookup consistent.noEmptyRow consistent'.noEmptyRow fun entity component => ?_
    have data := same entity component
    simp only [cell] at data
    cases here : Rows.lookup ec.entityMap entity component with
    | none =>
        rw [here, Option.map_none, eq_comm, Option.map_eq_none_iff] at data
        exact data.symm
    | some c =>
        rw [here, Option.map_some, eq_comm, Option.map_eq_some_iff] at data
        obtain ⟨c', there, equal⟩ := data
        rw [there]
        congr 1
        cases c
        cases c'
        have first := consistent.ownName here
        have second := consistent'.ownName there
        simp only at first second equal
        rw [first, second, equal]
  cases ec
  cases ec'
  simp only at maps next
  rw [maps, next]

end Ec

open Ec

theorem ecGetComponent_eq (ec : Ec) (entity : UInt32) (component : Text) :
    ecGetComponent ec entity component =
      ((ec.cell entity component).isSome, ec.current entity component) := by
  unfold ecGetComponent Ec.current Ec.cell Rows.lookup
  cases ec.entityMap[entity]? with
  | none => rfl
  | some entityrow =>
      simp only [Option.bind_some]
      cases entityrow[component]? with
      | none => rfl
      | some cell => rfl

theorem foldl_names (entityrow : EcEntityrow) :
    entityrow.foldl (fun components name _ => components ++ [name]) [] = entityrow.keys := by
  have collect : ∀ (cells : List (Text × EcCell)) (names : List Text),
      cells.foldl (fun components cell => components ++ [cell.1]) names =
        names ++ cells.map Prod.fst := by
    intro cells
    induction cells with
    | nil => simp
    | cons cell cells ih => simp [ih]
  rw [Std.ExtTreeMap.foldl_eq_foldl_toList, collect, List.nil_append,
    Std.ExtTreeMap.map_fst_toList_eq_keys]

/-- In a consistent table the assertion of `ec_get_components` holds. -/
theorem ecGetComponents_eq {ec : Ec} (consistent : ec.Consistent) (entity : UInt32) :
    ecGetComponents ec entity =
      .ok (if ec.components entity = [] then none else some (ec.components entity)) := by
  unfold ecGetComponents Ec.components Rows.names
  cases found : ec.entityMap[entity]? with
  | none => rfl
  | some entityrow =>
      have nonempty : entityrow.keys ≠ [] := by
        intro empty
        refine consistent.noEmptyRow entity entityrow found (Std.ExtTreeMap.ext_getElem? fun n => ?_)
        have : n ∉ entityrow := by rw [← Std.ExtTreeMap.mem_keys, empty]; simp
        simp [Std.ExtTreeMap.getElem?_eq_none this]
      simp only [foldl_names, List.length_eq_zero_iff, Option.map_some, Option.getD_some,
        if_neg nonempty]

theorem ecDetach_eq (ec : Ec) (entity : UInt32) (component : Text) :
    ecDetach ec entity component =
      { ec with entityMap := Rows.remove ec.entityMap entity component } := by
  unfold ecDetach Rows.remove
  cases ec.entityMap[entity]? with
  | none => rfl
  | some entityrow =>
      simp only
      cases entityrow[component]? <;> rfl

theorem insertIfNew_erase (entityrow : EcEntityrow) (component : Text) (cell : EcCell) :
    (match entityrow[component]? with
      | none => entityrow
      | some _ => entityrow.erase component).insertIfNew component cell =
        entityrow.insert component cell := by
  refine Std.ExtTreeMap.ext_getElem? fun name => ?_
  cases there : entityrow[component]? with
  | none =>
      have absent : component ∉ entityrow := by
        rw [Std.ExtTreeMap.mem_iff_isSome_getElem?, there]
        simp
      simp [Std.ExtTreeMap.getElem?_insertIfNew, Std.ExtTreeMap.getElem?_insert, absent]
  | some old =>
      rw [Std.ExtTreeMap.getElem?_insertIfNew, Std.ExtTreeMap.getElem?_insert,
        Std.ExtTreeMap.getElem?_erase]
      by_cases same : component = name <;> simp [same]

theorem ecAttach_eq (ec : Ec) (entity : UInt32) (component : Text) (datum : Json) :
    ecAttach ec entity component datum =
      { ec with entityMap := Rows.store ec.entityMap entity component ⟨component, datum⟩ } := by
  unfold ecAttach Rows.store
  cases found : ec.entityMap[entity]? with
  | none =>
      have row := insertIfNew_erase ∅ component ⟨component, datum⟩
      simp only [Std.ExtTreeMap.getElem?_empty] at row
      have absent : entity ∉ ec.entityMap := by
        rw [Std.ExtTreeMap.mem_iff_isSome_getElem?, found]
        simp
      simp only [row, Option.getD_none]
      congr 1
      refine Std.ExtTreeMap.ext_getElem? fun e => ?_
      simp [Std.ExtTreeMap.getElem?_insertIfNew, Std.ExtTreeMap.getElem?_insert, absent]
  | some entityrow => simp only [insertIfNew_erase, Option.getD_some]

/-- What a value leaves in its cell: nothing if it is `NULL` or `null`. -/
def attached (value : Option Json) : Option Json := value.filter fun datum => !datum.jsonTokIsNull

@[simp] theorem attached_none : attached none = none := rfl

theorem attached_some (datum : Json) :
    attached (some datum) = if datum.jsonTokIsNull then none else some datum := by
  cases null : datum.jsonTokIsNull <;> simp [attached, Option.filter, null]

theorem cell_ecDetach (ec : Ec) (entity entity' : UInt32) (component component' : Text) :
    (ecDetach ec entity component).cell entity' component' =
      if entity = entity' ∧ component = component' then none else ec.cell entity' component' := by
  rw [ecDetach_eq, Ec.cell, Rows.lookup_remove]
  split_ifs <;> rfl

theorem cell_ecSetComponent (ec : Ec) (entity entity' : UInt32) (component component' : Text)
    (value : Option Json) :
    (ecSetComponent ec entity component value).cell entity' component' =
      if entity = entity' ∧ component = component' then attached value
      else ec.cell entity' component' := by
  cases value with
  | none => exact cell_ecDetach ec entity entity' component component'
  | some datum =>
      rw [ecSetComponent, attached_some]
      cases null : datum.jsonTokIsNull with
      | true => simpa using cell_ecDetach ec entity entity' component component'
      | false =>
          simp only [Bool.false_eq_true, if_false, ecAttach_eq, Ec.cell, Rows.lookup_store]
          split_ifs <;> rfl

theorem cell_ecSetComponent_self (ec : Ec) (entity : UInt32) (component : Text)
    (value : Option Json) :
    (ecSetComponent ec entity component value).cell entity component = attached value := by
  simp [cell_ecSetComponent]

@[simp] theorem nextEntity_ecSetComponent (ec : Ec) (entity : UInt32) (component : Text)
    (value : Option Json) :
    (ecSetComponent ec entity component value).nextEntity = ec.nextEntity := by
  cases value with
  | none => rw [ecSetComponent, ecDetach_eq]
  | some datum => rw [ecSetComponent]; split_ifs <;> simp [ecDetach_eq, ecAttach_eq]

namespace Ec

theorem consistent_ecNew : ecNew.Consistent where
  noEmptyRow := Rows.noEmptyRow_empty
  ownName := by intro _ _ _ found; simp [ecNew] at found
  notNull := by intro _ _ _ found; simp [ecNew] at found

theorem Consistent.detach {ec : Ec} (consistent : ec.Consistent) (entity : UInt32)
    (component : Text) : (ecDetach ec entity component).Consistent := by
  rw [ecDetach_eq]
  refine ⟨consistent.noEmptyRow.remove entity component, ?_, ?_⟩ <;>
  · intro _ _ _ found
    simp only [Rows.lookup_remove] at found
    split_ifs at found
    first
      | exact consistent.ownName found
      | exact consistent.notNull found

theorem Consistent.set {ec : Ec} (consistent : ec.Consistent) (entity : UInt32) (component : Text)
    (value : Option Json) : (ecSetComponent ec entity component value).Consistent := by
  cases value with
  | none => exact consistent.detach entity component
  | some datum =>
      rw [ecSetComponent]
      cases null : datum.jsonTokIsNull with
      | true => exact consistent.detach entity component
      | false =>
          simp only [Bool.false_eq_true, if_false, ecAttach_eq]
          refine ⟨consistent.noEmptyRow.store entity component _, ?_, ?_⟩
          · intro _ _ _ found
            simp only [Rows.lookup_store] at found
            split_ifs at found with same
            · cases found
              exact same.2
            · exact consistent.ownName found
          · intro _ _ _ found
            simp only [Rows.lookup_store] at found
            split_ifs at found with same
            · cases found
              exact null
            · exact consistent.notNull found

theorem All.set {P : Json → Prop} {ec : Ec} (all : ec.All P) (entity : UInt32) (component : Text)
    {value : Option Json} (ok : ∀ datum, value = some datum → P datum) :
    (ecSetComponent ec entity component value).All P := by
  intro entity' component' datum found
  rw [cell_ecSetComponent] at found
  split_ifs at found
  · exact ok datum (Option.filter_eq_some_iff.mp found).1
  · exact all found

theorem All.current {P : Json → Prop} {ec : Ec} (all : ec.All P) (null : P nullDatum)
    (entity : UInt32) (component : Text) : P (ec.current entity component) := by
  cases found : ec.cell entity component with
  | none => simpa [Ec.current, found] using null
  | some datum => simpa [Ec.current, found] using all found

theorem all_ecNew (P : Json → Prop) : ecNew.All P := by
  intro _ _ _ found
  simp [cell, ecNew] at found

/-! ## Setting several components of one entity -/

def setAll (ec : Ec) (entity : UInt32) (values : List (Text × Json)) : Ec :=
  values.foldl (fun ec m => ecSetComponent ec entity m.1 (some m.2)) ec

def lastValue (values : List (Text × Json)) (component : Text) : Option Json :=
  (values.filter fun m => m.1 == component).getLast?.map Prod.snd

@[simp] theorem lastValue_nil (component : Text) : lastValue [] component = none := rfl

theorem lastValue_append (values : List (Text × Json)) (m : Text × Json) (component : Text) :
    lastValue (values ++ [m]) component =
      if m.1 = component then some m.2 else lastValue values component := by
  by_cases same : m.1 = component <;> simp [lastValue, List.filter_append, same]

theorem lastValue_eq_none {values : List (Text × Json)} {component : Text}
    (unlisted : ∀ m ∈ values, m.1 ≠ component) : lastValue values component = none := by
  have none_listed : values.filter (fun m => m.1 == component) = [] := by
    rw [List.filter_eq_nil_iff]
    intro m member same
    exact unlisted m member (by simpa using same)
  simp [lastValue, none_listed]

theorem mem_of_lastValue {values : List (Text × Json)} {component : Text} {value : Json}
    (last : lastValue values component = some value) : (component, value) ∈ values := by
  obtain ⟨m, found, rfl⟩ := Option.map_eq_some_iff.mp last
  have listed := List.mem_filter.mp (List.mem_of_getLast? found)
  have name : m.1 = component := by simpa using listed.2
  rw [← name]
  exact listed.1

theorem lastValue_toList (values : Std.ExtTreeMap Text Json) (component : Text) :
    lastValue values.toList component = values[component]? := by
  cases found : values[component]? with
  | none =>
      have none_listed : values.toList.filter (fun m => m.1 == component) = [] := by
        rw [List.filter_eq_nil_iff]
        rintro ⟨name, value⟩ member same
        simp only [beq_iff_eq] at same
        rw [Std.ExtTreeMap.mem_toList_iff_getElem?_eq_some, same, found] at member
        cases member
      simp [lastValue, none_listed]
  | some value =>
      have listed : (component, value) ∈ values.toList :=
        Std.ExtTreeMap.mem_toList_iff_getElem?_eq_some.mpr found
      have only : ∀ m ∈ values.toList.filter (fun m => m.1 == component), m.2 = value := by
        rintro ⟨name, other⟩ member
        rw [List.mem_filter, Std.ExtTreeMap.mem_toList_iff_getElem?_eq_some, beq_iff_eq] at member
        obtain ⟨there, same⟩ := member
        simp only at same
        rw [same, found] at there
        exact (Option.some.inj there).symm
      cases last : (values.toList.filter fun m => m.1 == component).getLast? with
      | none =>
          rw [List.getLast?_eq_none_iff, List.filter_eq_nil_iff] at last
          exact absurd (beq_self_eq_true component) (last _ listed)
      | some m => simp [lastValue, last, only m (List.mem_of_getLast? last)]

theorem cell_setAll (ec : Ec) (entity entity' : UInt32) (values : List (Text × Json))
    (component : Text) :
    (ec.setAll entity values).cell entity' component =
      if entity = entity' then
        (lastValue values component).elim (ec.cell entity' component) fun value =>
          attached (some value)
      else ec.cell entity' component := by
  induction values using List.reverseRecOn with
  | nil => simp [setAll]
  | append_singleton values m ih =>
      rw [setAll, List.foldl_append, List.foldl_cons, List.foldl_nil, ← setAll,
        cell_ecSetComponent, ih, lastValue_append]
      by_cases sameEntity : entity = entity' <;> by_cases sameName : m.1 = component <;>
        simp [sameEntity, sameName]

theorem Consistent.setAll {ec : Ec} (consistent : ec.Consistent) (entity : UInt32)
    (values : List (Text × Json)) : (ec.setAll entity values).Consistent := by
  induction values generalizing ec with
  | nil => exact consistent
  | cons m values ih => exact ih (consistent.set entity m.1 (some m.2))

theorem All.setAll {P : Json → Prop} {ec : Ec} (all : ec.All P) (entity : UInt32)
    {values : List (Text × Json)} (ok : ∀ m ∈ values, P m.2) : (ec.setAll entity values).All P := by
  induction values generalizing ec with
  | nil => exact all
  | cons m values ih =>
      rw [List.forall_mem_cons] at ok
      refine ih (all.set entity m.1 ?_) ok.2
      rintro datum same
      cases same
      exact ok.1

end Ec

end Payz
