import Payz.Ecs.History
import Payz.Payecs.Getcomponents

/-! # Listing the entities

`payecs_listentities` of `plugins/payz/payecs_data.c`.  What is printed is an array of
objects, one for each entity that is not left out.
-/

namespace Payz

/-- Whether an entity with these components is left out.  The loop over `disallowed`
    starts at index 9. -/
def listentitiesSkips (required disallowed components : List Text) : Bool :=
  (required.any fun name => name ∉ components) ||
    (disallowed.drop 9).any fun name => name ∈ components

/-- One turn of the loop over the entities. -/
def listentitiesTurn (required disallowed : List Text) (ec : Ec) (entity : UInt32) (out : JsonOut) :
    Except Fault JsonOut :=
  match ecGetComponents ec entity with
  | .error fault => .error fault
  | .ok attached =>
      let components := attached.getD []
      if components.length = 0 then .ok out
      else if listentitiesSkips required disallowed components then .ok out
      else
        let out := jsonOutStart out none '{'
        let out := jsonSpliceEntityComponentsOut out ec entity components
        .ok (jsonOutEnd out '}')

/-- The loop, for so many entities from this one on. -/
def listentitiesLoop (required disallowed : List Text) (ec : Ec) :
    Nat → UInt32 → JsonOut → Except Fault JsonOut
  | 0, _, out => .ok out
  | turns + 1, entity, out =>
      match listentitiesTurn required disallowed ec entity out with
      | .error fault => .error fault
      | .ok out => listentitiesLoop required disallowed ec turns (entity + 1) out

/-- The `result` of `payecs_listentities`. -/
def payecsListentitiesText (ec : Ec) (required disallowed : List Text) : Except Fault Text :=
  let bounds := ecGetEntityBounds ec
  let out := jsonOutStart jsonOutNew none '{'
  let out := jsonOutStart out (some "entities".toList) '['
  (listentitiesLoop required disallowed ec (bounds.2.toNat - bounds.1.toNat) bounds.1 out).map
    fun out => (jsonOutEnd (jsonOutEnd out ']') '}').outbuf

def payecsListentitiesParams : List Param :=
  [paramArrayOfStrings "required" false, paramArrayOfStrings "disallowed" false]

/-- The parameters of `payecs_listentities`: `required` and `disallowed`. -/
def payecsListentitiesArgs (params : Json) : Except CommandFail (List Text × List Text) :=
  (param payecsListentitiesParams params).map fun values =>
    (((values.getD 0 none).bind jsonToArrayOfStrings).getD [],
      ((values.getD 1 none).bind jsonToArrayOfStrings).getD [])

def payecsListentities (ec : Ec) (params : Json) : Except Fault (Except CommandFail Text) :=
  match payecsListentitiesArgs params with
  | .error fail => .ok (.error fail)
  | .ok (required, disallowed) => (payecsListentitiesText ec required disallowed).map .ok

/-! ## What is printed -/

def entityObject (ec : Ec) (entity : UInt32) : Json :=
  .tight (jsonSpliceEntityComponents ec entity (ec.components entity))

def listed (required disallowed : List Text) (ec : Ec) (entity : UInt32) : Bool :=
  !(ec.components entity).isEmpty &&
    !listentitiesSkips required disallowed (ec.components entity)

/-- So many entities from this one on. -/
def entitiesFrom (entity : UInt32) : Nat → List UInt32
  | 0 => []
  | turns + 1 => entity :: entitiesFrom (entity + 1) turns

/-- The entities that are listed, in the order of the listing. -/
def listentities (required disallowed : List Text) (ec : Ec) : List UInt32 :=
  let bounds := ecGetEntityBounds ec
  (entitiesFrom bounds.1 (bounds.2.toNat - bounds.1.toNat)).filter
    (listed required disallowed ec)

section

variable {ec : Ec} (consistent : ec.Consistent) (required disallowed : List Text)

include consistent

theorem listentitiesTurn_eq (entity : UInt32) {out : JsonOut} {before : Text} {elems : List Json}
    (writing : out.WritingArray before elems) :
    ∃ out', listentitiesTurn required disallowed ec entity out = .ok out' ∧
      out'.WritingArray before (elems ++
        if listed required disallowed ec entity then [entityObject ec entity] else []) := by
  have attached : (if ec.components entity = [] then none
      else some (ec.components entity)).getD [] = ec.components entity := by
    split_ifs with bare
    · exact bare.symm
    · rfl
  simp only [listentitiesTurn, ecGetComponents_eq consistent, attached, List.length_eq_zero_iff]
  by_cases bare : ec.components entity = []
  · exact ⟨out, if_pos bare, by simpa [listed, bare] using writing⟩
  · rw [if_neg bare]
    cases skips : listentitiesSkips required disallowed (ec.components entity) with
    | true => exact ⟨out, rfl, by simpa [listed, bare, skips] using writing⟩
    | false =>
        have inside : (jsonOutStart out none '{').Writing (jsonOutMemberDirect out none).outbuf [] :=
          ⟨rfl, rfl⟩
        refine ⟨_, rfl, ?_⟩
        have here : listed required disallowed ec entity = true := by simp [listed, bare, skips]
        rw [here]
        exact writing.object (writing_entityComponents inside ec entity (ec.components entity))

theorem listentitiesLoop_eq (turns : Nat) (entity : UInt32) {out : JsonOut} {before : Text}
    {elems : List Json} (writing : out.WritingArray before elems) :
    ∃ out', listentitiesLoop required disallowed ec turns entity out = .ok out' ∧
      out'.WritingArray before (elems ++
        ((entitiesFrom entity turns).filter (listed required disallowed ec)).map
          (entityObject ec)) := by
  induction turns generalizing entity out elems with
  | zero => exact ⟨out, rfl, by simpa [entitiesFrom] using writing⟩
  | succ turns ih =>
      obtain ⟨out₁, first, one⟩ := listentitiesTurn_eq consistent required disallowed entity writing
      obtain ⟨out₂, rest, all⟩ := ih (entity + 1) one
      refine ⟨out₂, by simp only [listentitiesLoop, first, rest], ?_⟩
      cases here : listed required disallowed ec entity with
      | true => simpa [here, entitiesFrom] using all
      | false => simpa [here, entitiesFrom] using all

/-- The text is that of the array of objects of the listed entities. -/
theorem payecsListentitiesText_eq :
    payecsListentitiesText ec required disallowed = .ok (Json.tight [("entities".toList,
      .tightArray ((listentities required disallowed ec).map (entityObject ec)))]).jsonTokFull := by
  have root := JsonOut.Writing.start_root
  have array := @JsonOut.WritingArray.start (jsonOutStart jsonOutNew none '{') "entities".toList
  obtain ⟨out, looped, writing⟩ := listentitiesLoop_eq consistent required disallowed
    ((ecGetEntityBounds ec).2.toNat - (ecGetEntityBounds ec).1.toNat) (ecGetEntityBounds ec).1 array
  have whole := (JsonOut.WritingArray.member root writing).finish
  simp only [payecsListentitiesText, looped]
  exact congrArg Except.ok whole

end

/-! ## The bounds -/

theorem mem_entitiesFrom {entity first : UInt32} {turns : Nat}
    (fits : first.toNat + turns ≤ 2 ^ 32) :
    entity ∈ entitiesFrom first turns ↔
      first.toNat ≤ entity.toNat ∧ entity.toNat < first.toNat + turns := by
  induction turns generalizing first with
  | zero =>
      simp only [entitiesFrom, List.not_mem_nil, false_iff]
      omega
  | succ turns ih =>
      rw [entitiesFrom, List.mem_cons, ← UInt32.toNat_inj]
      cases turns with
      | zero =>
          simp only [entitiesFrom, List.not_mem_nil, or_false]
          omega
      | succ turns =>
          have next : (first + 1).toNat = first.toNat + 1 := by
            rw [UInt32.toNat_add, UInt32.toNat_one]
            omega
          rw [ih (by omega), next]
          omega

theorem entitiesFrom_increasing {first : UInt32} {turns : Nat}
    (fits : first.toNat + turns ≤ 2 ^ 32) : (entitiesFrom first turns).Pairwise (· < ·) := by
  induction turns generalizing first with
  | zero => exact .nil
  | succ turns ih =>
      cases turns with
      | zero => exact List.pairwise_singleton _ _
      | succ turns =>
          have next : (first + 1).toNat = first.toNat + 1 := by
            rw [UInt32.toNat_add, UInt32.toNat_one]
            omega
          refine .cons ?_ (ih (by omega))
          intro entity member
          rw [mem_entitiesFrom (by omega)] at member
          rw [UInt32.lt_iff_toNat_lt]
          omega

theorem Ec.Consistent.mem_entityMap {ec : Ec} (consistent : ec.Consistent) {entity : UInt32} :
    entity ∈ ec.entityMap ↔ ec.components entity ≠ [] := by
  rw [Rows.mem_iff_lookup consistent.noEmptyRow, Ne, List.eq_nil_iff_forall_not_mem,
    not_forall_not]
  exact exists_congr fun component => (Rows.mem_names ec.entityMap entity component).symm

/-- The bounds of a table that is not empty are its first entity and the one after its last. -/
theorem Ec.Consistent.bounds {ec : Ec} (consistent : ec.Consistent) :
    ((∀ entity, ec.components entity = []) ∧ ecGetEntityBounds ec = (0, 0)) ∨
      ∃ first last, ecGetEntityBounds ec = (first, last + 1) ∧ ec.components first ≠ [] ∧
        ec.components last ≠ [] ∧
        ∀ entity, ec.components entity ≠ [] → first ≤ entity ∧ entity ≤ last := by
  cases lowest : ec.entityMap.minKey? with
  | none =>
      have empty : ec.entityMap = ∅ := Std.ExtTreeMap.minKey?_eq_none_iff.mp lowest
      refine .inl ⟨fun entity => ?_, by simp [ecGetEntityBounds, lowest]⟩
      by_contra some
      have row := consistent.mem_entityMap.mpr some
      rw [empty] at row
      exact Std.ExtTreeMap.not_mem_empty row
  | some first =>
      cases highest : ec.entityMap.maxKey? with
      | none =>
          have empty : ec.entityMap = ∅ := Std.ExtTreeMap.maxKey?_eq_none_iff.mp highest
          rw [empty, Std.ExtTreeMap.minKey?_empty] at lowest
          cases lowest
      | some last =>
          have least := Std.ExtTreeMap.minKey?_eq_some_iff_mem_and_forall.mp lowest
          have greatest := Std.ExtTreeMap.maxKey?_eq_some_iff_mem_and_forall.mp highest
          refine .inr ⟨first, last, by simp [ecGetEntityBounds, lowest, highest],
            consistent.mem_entityMap.mp least.1, consistent.mem_entityMap.mp greatest.1, ?_⟩
          intro entity some
          have row := consistent.mem_entityMap.mpr some
          exact ⟨Std.isLE_compare.mp (least.2 entity row),
            Std.isLE_compare.mp (greatest.2 entity row)⟩

/-- Every entity with a component is within the bounds, so that the loop comes to it, and the
    bounds are equal only if there is none. -/
structure BoundsCover (ec : Ec) : Prop where
  covers : ∀ entity, ec.components entity ≠ [] →
    (ecGetEntityBounds ec).1 ≤ entity ∧ entity < (ecGetEntityBounds ec).2
  empty : (ecGetEntityBounds ec).1 = (ecGetEntityBounds ec).2 ↔
    ∀ entity, ec.components entity = []
  visits : ∀ entity, ec.components entity ≠ [] → entity ∈ entitiesFrom (ecGetEntityBounds ec).1
    ((ecGetEntityBounds ec).2.toNat - (ecGetEntityBounds ec).1.toNat)

/-- Without a component on the last entity there is, the upper bound does not wrap around. -/
theorem Ec.Consistent.boundsCover {ec : Ec} (consistent : ec.Consistent)
    (bare : ec.components 0xFFFFFFFF = []) : BoundsCover ec := by
  obtain ⟨empty, bounds⟩ | ⟨first, last, bounds, firstSome, lastSome, within⟩ := consistent.bounds
  · constructor
    · exact fun entity some => absurd (empty entity) some
    · rw [bounds]
      exact iff_of_true rfl empty
    · exact fun entity some => absurd (empty entity) some
  · have notLast : last ≠ 0xFFFFFFFF := fun same => lastSome (same ▸ bare)
    have next : (last + 1).toNat = last.toNat + 1 := by
      rw [Ne, ← UInt32.toNat_inj] at notLast
      have small := last.toNat_lt
      rw [UInt32.toNat_add, UInt32.toNat_one]
      simp only [UInt32.reduceToNat] at notLast
      omega
    have ordered := UInt32.le_iff_toNat_le.mp (within first firstSome).2
    have covers : ∀ entity, ec.components entity ≠ [] → first ≤ entity ∧ entity < last + 1 := by
      intro entity some
      have upper := UInt32.le_iff_toNat_le.mp (within entity some).2
      refine ⟨(within entity some).1, ?_⟩
      rw [UInt32.lt_iff_toNat_lt, next]
      omega
    constructor
    · rwa [bounds]
    · simp only [bounds, ← UInt32.toNat_inj, next]
      exact iff_of_false (by omega) fun empty => lastSome (empty last)
    · intro entity some
      have there := covers entity some
      rw [UInt32.le_iff_toNat_le, UInt32.lt_iff_toNat_lt] at there
      have fits : first.toNat + ((last + 1).toNat - first.toNat) ≤ 2 ^ 32 := by
        have small := (last + 1).toNat_lt
        omega
      simp only [bounds, mem_entitiesFrom fits]
      omega

/-- After any calls the bounds cover the table exactly if the calls have left no component on
    the last entity there is. -/
theorem entityBounds_cover_iff (calls : List EcCall) :
    BoundsCover (ecAfter calls) ↔ ∀ component, lastSet calls 0xFFFFFFFF component = none := by
  have consistent := consistent_ecAfter calls
  constructor
  · intro cover component
    by_contra attached
    rw [← cell_ecAfter, ← Ne, Option.ne_none_iff_isSome, ← Ec.mem_components] at attached
    have below := (cover.covers 0xFFFFFFFF (List.ne_nil_of_mem attached)).2
    have small := (ecGetEntityBounds (ecAfter calls)).2.toNat_lt
    rw [UInt32.lt_iff_toNat_lt] at below
    simp only [UInt32.reduceToNat] at below
    omega
  · intro detached
    refine consistent.boundsCover (List.eq_nil_iff_forall_not_mem.mpr fun component member => ?_)
    rw [Ec.mem_components, cell_ecAfter, detached component] at member
    cases member

def firstAndLast : Ec :=
  ecAfter [⟨1, "a".toList, some (.primitive "7".toList)⟩,
    ⟨0xFFFFFFFF, "a".toList, some (.primitive "7".toList)⟩]

/-- A component on the last entity hides entity 1. -/
theorem entityBounds_wrap :
    (ecGetEntityBounds firstAndLast).2 = 0 ∧ firstAndLast.components 1 = ["a".toList] ∧
      listentities [] [] firstAndLast = [] ∧ ¬ BoundsCover firstAndLast := by
  have attached : firstAndLast.components 1 = ["a".toList] := by decide +kernel
  have attachedLast : firstAndLast.components 0xFFFFFFFF ≠ [] := by decide +kernel
  have wrapped : (ecGetEntityBounds firstAndLast).2 = 0 := by
    have consistent : firstAndLast.Consistent := consistent_ecAfter _
    obtain ⟨empty, -⟩ | ⟨first, last, bounds, -, -, within⟩ := consistent.bounds
    · exact absurd (empty 0xFFFFFFFF) attachedLast
    · have upper := UInt32.le_iff_toNat_le.mp (within 0xFFFFFFFF attachedLast).2
      have small := last.toNat_lt
      simp only [UInt32.reduceToNat] at upper
      have same : last = 0xFFFFFFFF := UInt32.toNat_inj.mp (by simp only [UInt32.reduceToNat]; omega)
      rw [bounds, same]
      rfl
  refine ⟨wrapped, attached, ?_, fun cover => ?_⟩
  · simp only [listentities, wrapped, UInt32.toNat_zero, Nat.zero_sub, entitiesFrom,
      List.filter_nil]
  · have below := (cover.covers 1 (by simp [attached])).2
    rw [wrapped] at below
    exact absurd below (by decide)

/-! ## The filters -/

/-- The innermost loop: whether a name is among the components. -/
def listentitiesFinds (name : Text) : List Text → Bool
  | [] => false
  | component :: components =>
      if name = component then true else listentitiesFinds name components

/-- The loop over `required`, up to the first name that is missing. -/
def listentitiesMisses (components : List Text) : List Text → Bool
  | [] => false
  | name :: required =>
      if listentitiesFinds name components then listentitiesMisses components required else true

/-- The loop over what it is to see of `disallowed`, up to the first name that is there. -/
def listentitiesBars (components : List Text) : List Text → Bool
  | [] => false
  | name :: disallowed =>
      if listentitiesFinds name components then true else listentitiesBars components disallowed

theorem listentitiesFinds_eq (name : Text) (components : List Text) :
    listentitiesFinds name components = decide (name ∈ components) := by
  induction components with
  | nil => rfl
  | cons component components ih =>
      rw [listentitiesFinds, ih]
      by_cases same : name = component <;> simp [same]

theorem listentitiesSkips_eq_loops (required disallowed components : List Text) :
    listentitiesSkips required disallowed components =
      (listentitiesMisses components required ||
        listentitiesBars components (disallowed.drop 9)) := by
  have misses : listentitiesMisses components required =
      required.any fun name => name ∉ components := by
    induction required with
    | nil => rfl
    | cons name required ih =>
        rw [listentitiesMisses, listentitiesFinds_eq, ih, List.any_cons]
        by_cases there : name ∈ components <;> simp [there]
  have bars : ∀ names : List Text, listentitiesBars components names =
      names.any fun name => name ∈ components := by
    intro names
    induction names with
    | nil => rfl
    | cons name names ih =>
        rw [listentitiesBars, listentitiesFinds_eq, ih, List.any_cons]
        by_cases there : name ∈ components <;> simp [there]
  rw [listentitiesSkips, misses, bars]

/-- What is asked of an entity for it to be listed. -/
structure Ec.Passes (ec : Ec) (required disallowed : List Text) (entity : UInt32) : Prop where
  within : (ecGetEntityBounds ec).1 ≤ entity ∧ entity < (ecGetEntityBounds ec).2
  attached : ec.components entity ≠ []
  required : ∀ name ∈ required, name ∈ ec.components entity
  disallowed : ∀ name ∈ disallowed, name ∉ ec.components entity

/-- The entities are listed that pass the filters and no others, in increasing order. -/
def ListsExactly (ec : Ec) (required disallowed : List Text) : Prop :=
  (listentities required disallowed ec).Pairwise (· < ·) ∧
    ∀ entity, entity ∈ listentities required disallowed ec ↔ ec.Passes required disallowed entity

theorem listed_iff {ec : Ec} {required disallowed : List Text} {entity : UInt32} :
    listed required disallowed ec entity = true ↔ ec.components entity ≠ [] ∧
      (∀ name ∈ required, name ∈ ec.components entity) ∧
        ∀ name ∈ disallowed.drop 9, name ∉ ec.components entity := by
  simp only [listed, listentitiesSkips, Bool.and_eq_true, Bool.not_eq_true', Bool.or_eq_false_iff,
    List.isEmpty_eq_false_iff, List.any_eq_false, decide_eq_true_eq, not_not]

theorem bounds_fit (ec : Ec) : (ecGetEntityBounds ec).1.toNat +
    ((ecGetEntityBounds ec).2.toNat - (ecGetEntityBounds ec).1.toNat) ≤ 2 ^ 32 := by
  have lower := (ecGetEntityBounds ec).1.toNat_lt
  have upper := (ecGetEntityBounds ec).2.toNat_lt
  omega

/-- Of the names that are disallowed, the loop sees those from index 9 on. -/
theorem mem_listentities {ec : Ec} {required disallowed : List Text} {entity : UInt32} :
    entity ∈ listentities required disallowed ec ↔
      ec.Passes required (disallowed.drop 9) entity := by
  rw [listentities, List.mem_filter, mem_entitiesFrom (bounds_fit ec), listed_iff]
  constructor
  · rintro ⟨within, attached, has, lacks⟩
    refine ⟨⟨UInt32.le_iff_toNat_le.mpr within.1, UInt32.lt_iff_toNat_lt.mpr ?_⟩, attached, has,
      lacks⟩
    omega
  · intro passes
    have lower := UInt32.le_iff_toNat_le.mp passes.within.1
    have upper := UInt32.lt_iff_toNat_lt.mp passes.within.2
    exact ⟨⟨lower, by omega⟩, passes.attached, passes.required, passes.disallowed⟩

theorem listentities_increasing (ec : Ec) (required disallowed : List Text) :
    (listentities required disallowed ec).Pairwise (· < ·) :=
  (entitiesFrom_increasing (bounds_fit ec)).filter _

/-- No entity that has all that is required has one of the first nine names that are
    disallowed, unless it has a later one as well. -/
def FirstNineRedundant (ec : Ec) (required disallowed : List Text) : Prop :=
  ∀ entity, ec.Passes required (disallowed.drop 9) entity →
    ∀ name ∈ disallowed.take 9, name ∉ ec.components entity

theorem listsExactly_iff (ec : Ec) (required disallowed : List Text) :
    ListsExactly ec required disallowed ↔ FirstNineRedundant ec required disallowed := by
  constructor
  · intro exact entity passes name early
    have all := (exact.2 entity).mp (mem_listentities.mpr passes)
    exact all.disallowed name (List.mem_of_mem_take early)
  · intro redundant
    refine ⟨listentities_increasing ec required disallowed, fun entity => ?_⟩
    rw [mem_listentities]
    constructor
    · intro passes
      refine ⟨passes.within, passes.attached, passes.required, fun name member => ?_⟩
      rw [← List.take_append_drop 9 disallowed, List.mem_append] at member
      cases member with
      | inl early => exact redundant entity passes name early
      | inr late => exact passes.disallowed name late
    · intro passes
      exact ⟨passes.within, passes.attached, passes.required,
        fun name late => passes.disallowed name (List.mem_of_mem_drop late)⟩

/-- `payecs_listentities` lists what passes the filters, each entity with its components,
    exactly if the first nine disallowed names do not matter. -/
theorem listentities_filters_iff {ec : Ec} (consistent : ec.Consistent) {params : Json}
    {required disallowed : List Text}
    (args : payecsListentitiesArgs params = .ok (required, disallowed)) :
    payecsListentities ec params = .ok (.ok (Json.tight [("entities".toList, .tightArray
        ((listentities required disallowed ec).map fun entity =>
          .tight (("entity".toList, .primitive (formatU entity.toNat)) ::
            (ec.components entity).map fun component =>
              (component, ec.current entity component))))]).jsonTokFull) ∧
      (ListsExactly ec required disallowed ↔ FirstNineRedundant ec required disallowed) := by
  refine ⟨?_, listsExactly_iff ec required disallowed⟩
  have objects : entityObject ec = fun entity =>
      .tight (("entity".toList, .primitive (formatU entity.toNat)) ::
        (ec.components entity).map fun component => (component, ec.current entity component)) := by
    funext entity
    simp only [entityObject, jsonSpliceEntityComponents, ecGetComponent_eq]
  simp only [payecsListentities, args, payecsListentitiesText_eq consistent, objects]
  rfl

def listentitiesParams (required disallowed : List Text) : Json :=
  .tight [("required".toList, .tightArray (required.map .string)),
    ("disallowed".toList, .tightArray (disallowed.map .string))]

/-- Without parameters nothing is filtered. -/
example : payecsListentitiesArgs (.object "\x7b\x7d".toList []) = .ok ([], []) := rfl

/-- Two entities with a component each. -/
def twoEntities : Ec :=
  ecAfter [⟨1, "a".toList, some (.primitive "7".toList)⟩,
    ⟨2, "b".toList, some (.primitive "7".toList)⟩]

/-- Entity 2 is left out for a name that stands at ten places. -/
theorem listentities_filters_iff_ten :
    ListsExactly twoEntities [] (List.replicate 10 "b".toList) := by
  have args : payecsListentitiesArgs (listentitiesParams [] (List.replicate 10 "b".toList)) =
      .ok ([], List.replicate 10 "b".toList) := by decide +kernel
  refine (listentities_filters_iff (consistent_ecAfter _) args).2.mpr ?_
  intro entity passes name early
  rw [List.eq_of_mem_replicate (List.mem_of_mem_take early)]
  exact passes.disallowed _ (by simp)

/-- A single name that is disallowed is not looked at. -/
theorem listentities_disallowed_listed :
    payecsListentitiesArgs (listentitiesParams [] ["b".toList]) = .ok ([], ["b".toList]) ∧
      twoEntities.components 2 = ["b".toList] ∧ 2 ∈ listentities [] ["b".toList] twoEntities ∧
      ¬ ListsExactly twoEntities [] ["b".toList] := by
  have args : payecsListentitiesArgs (listentitiesParams [] ["b".toList]) =
      .ok ([], ["b".toList]) := by decide +kernel
  have attached : twoEntities.components 2 = ["b".toList] := by decide +kernel
  have bare : twoEntities.components 0xFFFFFFFF = [] := by decide +kernel
  have some : twoEntities.components 2 ≠ [] := by simp [attached]
  have within := ((consistent_ecAfter _).boundsCover bare).covers 2 some
  have listing : 2 ∈ listentities [] ["b".toList] twoEntities :=
    mem_listentities.mpr ⟨within, some, nofun, nofun⟩
  refine ⟨args, attached, listing, fun exact => ?_⟩
  have lacks := ((exact.2 2).mp listing).disallowed "b".toList List.mem_cons_self
  exact lacks (attached ▸ List.mem_cons_self)

end Payz
