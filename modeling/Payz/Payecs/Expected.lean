import Mathlib.Data.List.Dedup
import Payz.Ecs.History
import Payz.Payecs.Setcomponents

/-! # What the validating loop checks

A specification in `expected` is meant to hold when every component it lists has the
listed value, `null` standing for detached, and when it is `exact`, when nothing but
the components listed with a value is attached.  The loop compares the first value
listed for each component, and for `exact` the number of attached components with
the number of listed members, which counts `null` members and repetitions too.
-/

namespace Payz

def isComponent (m : Text × Json) : Bool := m.1 != "entity".toList && m.1 != "exact".toList

def listedMembers : Json → List (Text × Json)
  | .object _ members => members.filter isComponent
  | _ => []

/-! ## Parsing a specification -/

theorem writespecMember_loop {members : List (Text × Json)} {start draft : WritespecDraft}
    (loop : members.foldlM writespecMember start = some draft) :
    draft.numComponents = start.numComponents + (members.filter isComponent).length ∧
      ∀ component, draft.components[component]? = start.components[component]?.or
        (((members.filter isComponent).find? fun m => m.1 == component).map Prod.snd) := by
  induction members generalizing start with
  | nil =>
      cases loop
      simp
  | cons m members ih =>
      rw [List.foldlM_cons] at loop
      obtain ⟨next, turn, rest⟩ := Option.bind_eq_some_iff.mp loop
      obtain ⟨count, values⟩ := ih rest
      unfold writespecMember at turn
      split_ifs at turn with entity exact escape
      · obtain ⟨e, -, rfl⟩ := Option.map_eq_some_iff.mp turn
        have other : ¬ isComponent m = true := by simp [isComponent, entity]
        rw [List.filter_cons_of_neg other]
        exact ⟨count, values⟩
      · obtain ⟨b, -, rfl⟩ := Option.map_eq_some_iff.mp turn
        have other : ¬ isComponent m = true := by simp [isComponent, exact]
        rw [List.filter_cons_of_neg other]
        exact ⟨count, values⟩
      · cases turn
        have listed : isComponent m = true := by
          rw [isComponent, Bool.and_eq_true, bne_iff_ne, bne_iff_ne]
          exact ⟨entity, exact⟩
        rw [List.filter_cons_of_pos listed]
        refine ⟨by simp [count, Nat.add_assoc, Nat.add_comm 1], fun component => ?_⟩
        rw [values, Std.ExtTreeMap.getElem?_insertIfNew]
        by_cases same : m.1 = component
        · subst same
          by_cases there : m.1 ∈ start.components
          · obtain ⟨old, found⟩ := Option.isSome_iff_exists.mp
              (Std.ExtTreeMap.mem_iff_isSome_getElem?.mp there)
            rw [if_neg (by simp [there]), found]
            rfl
          · rw [if_pos ⟨by simp, there⟩, Std.ExtTreeMap.getElem?_eq_none there]
            simp
        · simp [same]

/-- A specification counts all listed members, and keeps the first value of each
    component. -/
theorem jsonToPayecsWritespec_listed {j : Json} {spec : PayecsWritespec}
    (accepted : jsonToPayecsWritespec j = some spec) :
    spec.numComponents = (listedMembers j).length ∧
      ∀ component, spec.components[component]? =
        ((listedMembers j).find? fun m => m.1 == component).map Prod.snd := by
  cases j with
  | primitive | string | array => simp [jsonToPayecsWritespec] at accepted
  | object text members =>
      simp only [jsonToPayecsWritespec] at accepted
      split at accepted
      · rename_i entity exact components numComponents loop
        cases accepted
        obtain ⟨count, values⟩ := writespecMember_loop loop
        exact ⟨by simpa [listedMembers] using count, fun component => by
          simpa [listedMembers] using values component⟩
      · cases accepted

theorem PayecsWritespec.mem_listed {j : Json} {spec : PayecsWritespec} {component : Text}
    {value : Json} (accepted : jsonToPayecsWritespec j = some spec)
    (listed : spec.components[component]? = some value) : (component, value) ∈ listedMembers j := by
  rw [(jsonToPayecsWritespec_listed accepted).2, Option.map_eq_some_iff] at listed
  obtain ⟨⟨name, datum⟩, found, rfl⟩ := listed
  have same : name = component := by simpa using List.find?_some found
  rw [← same]
  exact List.mem_of_find?_eq_some found

/-! ## What validation means -/

/-- What a specification expects of the table. -/
structure ExpectedHolds (ec : Ec) (entity : UInt32) (exact : Bool) (listed : List (Text × Json)) :
    Prop where
  values : ∀ m ∈ listed, Json.jsonEqual m.2 (ec.current entity m.1) = true
  only : exact = true → ∀ component, (ec.cell entity component).isSome ↔
    ∃ value, (component, value) ∈ listed ∧ value ≠ nullDatum

/-- The first value listed for each component is the current one. -/
def FirstAgree (ec : Ec) (entity : UInt32) (listed : List (Text × Json)) : Prop :=
  ∀ component value, (listed.find? fun m => m.1 == component).map Prod.snd = some value →
    Json.jsonEqual value (ec.current entity component) = true

def AllAgree (ec : Ec) (entity : UInt32) (listed : List (Text × Json)) : Prop :=
  ∀ m ∈ listed, Json.jsonEqual m.2 (ec.current entity m.1) = true

def nonNullNames (listed : List (Text × Json)) : List Text :=
  ((listed.filter fun m => m.2 ≠ nullDatum).map Prod.fst).dedup

theorem mem_nonNullNames {listed : List (Text × Json)} {component : Text} :
    component ∈ nonNullNames listed ↔ ∃ value, (component, value) ∈ listed ∧ value ≠ nullDatum := by
  simp [nonNullNames]

theorem AllAgree.firstAgree {ec : Ec} {entity : UInt32} {listed : List (Text × Json)}
    (agree : AllAgree ec entity listed) : FirstAgree ec entity listed := by
  intro component value found
  obtain ⟨⟨name, datum⟩, hit, rfl⟩ := Option.map_eq_some_iff.mp found
  have same : name = component := by simpa using List.find?_some hit
  rw [← same]
  exact agree (name, datum) (List.mem_of_find?_eq_some hit)

theorem payecsSetcomponentsValidate_iff (ec : Ec) (spec : PayecsWritespec) :
    payecsSetcomponentsValidate ec spec = true ↔ ∀ component value,
      spec.components[component]? = some value →
        Json.jsonEqual value (ec.current spec.entity component) = true := by
  simp only [payecsSetcomponentsValidate, List.all_eq_true, ecGetComponent_eq, Prod.forall,
    Std.ExtTreeMap.mem_toList_iff_getElem?_eq_some]

/-- One turn of the validating loop compares first values, and two numbers. -/
theorem payecsSetcomponentsExpect1_iff {ec : Ec} (consistent : ec.Consistent) {j : Json}
    {spec : PayecsWritespec} (accepted : jsonToPayecsWritespec j = some spec) :
    payecsSetcomponentsExpect1 ec spec = .ok true ↔
      FirstAgree ec spec.entity (listedMembers j) ∧ (spec.exact = true →
        (ec.components spec.entity).length = (listedMembers j).length) := by
  obtain ⟨count, values⟩ := jsonToPayecsWritespec_listed accepted
  have validated : payecsSetcomponentsValidate ec spec = true ↔
      FirstAgree ec spec.entity (listedMembers j) := by
    rw [payecsSetcomponentsValidate_iff, FirstAgree]
    simp only [values]
  have number : ((if ec.components spec.entity = [] then none
      else some (ec.components spec.entity)).getD []).length =
        (ec.components spec.entity).length := by
    split_ifs with empty <;> simp [empty]
  rw [payecsSetcomponentsExpect1, ← validated]
  cases payecsSetcomponentsValidate ec spec with
  | false => simp
  | true =>
      cases exact : spec.exact with
      | false => simp
      | true => simp [ecGetComponents_eq consistent, Except.map, number, count]

/-! ## Counting instead of comparing -/

theorem eq_null_of_jsonEqual {value : Json} (equal : Json.jsonEqual value nullDatum = true) :
    value = nullDatum := by
  cases value <;> simp [Json.jsonEqual, nullDatum] at equal
  rw [equal]
  rfl

theorem jsonTokIsNull_of_jsonEqual {datum : Json}
    (equal : Json.jsonEqual nullDatum datum = true) : datum.jsonTokIsNull = true := by
  cases datum <;> simp [Json.jsonEqual, nullDatum] at equal
  rw [← equal]
  rfl

/-- A component whose listed value is current is attached exactly if that value is
    not `null`. -/
theorem attached_iff_of_agree {ec : Ec} (consistent : ec.Consistent) {entity : UInt32}
    {component : Text} {value : Json}
    (agree : Json.jsonEqual value (ec.current entity component) = true) :
    (ec.cell entity component).isSome ↔ value ≠ nullDatum := by
  cases found : ec.cell entity component with
  | none =>
      rw [Ec.current, found] at agree
      simp [eq_null_of_jsonEqual agree]
  | some datum =>
      rw [Ec.current, found] at agree
      simp only [Option.isSome_some, true_iff]
      rintro rfl
      obtain ⟨cell, there, rfl⟩ := Option.map_eq_some_iff.mp found
      have null : cell.datum.jsonTokIsNull = true := jsonTokIsNull_of_jsonEqual agree
      rw [consistent.notNull there] at null
      cases null

/-- When all listed values are current, the attached components are the ones listed
    with a value if there are as many of them. -/
theorem only_iff_length {ec : Ec} (consistent : ec.Consistent) {entity : UInt32}
    {listed : List (Text × Json)} (agree : AllAgree ec entity listed) :
    (∀ component, (ec.cell entity component).isSome ↔
        ∃ value, (component, value) ∈ listed ∧ value ≠ nullDatum) ↔
      (ec.components entity).length = (nonNullNames listed).length := by
  have inside : nonNullNames listed ⊆ ec.components entity := by
    intro component member
    obtain ⟨value, there, nonNull⟩ := mem_nonNullNames.mp member
    rw [Ec.mem_components]
    exact (attached_iff_of_agree consistent (agree _ there)).mpr nonNull
  have sub : (nonNullNames listed).Subperm (ec.components entity) :=
    (List.nodup_dedup _).subperm inside
  constructor
  · intro only
    refine le_antisymm (List.Nodup.subperm (ec.components_nodup entity) ?_).length_le sub.length_le
    intro component there
    rw [Ec.mem_components] at there
    exact mem_nonNullNames.mpr ((only component).mp there)
  · intro sameLength component
    rw [← Ec.mem_components, ← (sub.perm_of_length_le (Nat.le_of_eq sameLength)).mem_iff, mem_nonNullNames]

theorem nonNullNames_length_eq_iff (listed : List (Text × Json)) :
    (nonNullNames listed).length = listed.length ↔
      (listed.map Prod.fst).Nodup ∧ ∀ m ∈ listed, m.2 ≠ nullDatum := by
  have dedupLe : (nonNullNames listed).length ≤
      ((listed.filter fun m => m.2 ≠ nullDatum).map Prod.fst).length :=
    (List.dedup_sublist _).length_le
  constructor
  · intro same
    have filtered : (listed.filter fun m => m.2 ≠ nullDatum).length = listed.length := by
      have filterLe := List.length_filter_le (fun m : Text × Json => decide (m.2 ≠ nullDatum)) listed
      rw [List.length_map] at dedupLe
      omega
    have all : listed.filter (fun m => m.2 ≠ nullDatum) = listed :=
      List.filter_sublist.eq_of_length filtered
    refine ⟨?_, fun m member => ?_⟩
    · have dedup : (listed.map Prod.fst).dedup = listed.map Prod.fst := by
        refine (List.dedup_sublist _).eq_of_length ?_
        rw [nonNullNames, all] at same
        rw [same, List.length_map]
      exact List.dedup_eq_self.mp dedup
    · rw [← all, List.mem_filter] at member
      simpa using member.2
  · rintro ⟨distinct, nonNull⟩
    have all : listed.filter (fun m => m.2 ≠ nullDatum) = listed := by
      rw [List.filter_eq_self]
      simpa using nonNull
    rw [nonNullNames, all, List.dedup_eq_self.mpr distinct, List.length_map]

/-- When comparing the two numbers comes to the same as comparing the two sets. -/
def CountDecides (ec : Ec) (entity : UInt32) (exact : Bool) (listed : List (Text × Json)) : Prop :=
  ¬ FirstAgree ec entity listed ∨
  (AllAgree ec entity listed ∧ (exact = true →
    ((listed.map Prod.fst).Nodup ∧ ∀ m ∈ listed, m.2 ≠ nullDatum) ∨
    ((ec.components entity).length ≠ listed.length ∧
      (ec.components entity).length ≠ (nonNullNames listed).length))) ∨
  (¬ AllAgree ec entity listed ∧ exact = true ∧ (ec.components entity).length ≠ listed.length)

/-- Validation of one specification does what it is meant to do exactly when the
    count decides. -/
theorem expected_validates_iff {ec : Ec} (consistent : ec.Consistent) {j : Json}
    {spec : PayecsWritespec} (accepted : jsonToPayecsWritespec j = some spec) :
    (payecsSetcomponentsExpect1 ec spec = .ok true ↔
        ExpectedHolds ec spec.entity spec.exact (listedMembers j)) ↔
      CountDecides ec spec.entity spec.exact (listedMembers j) := by
  rw [payecsSetcomponentsExpect1_iff consistent accepted]
  by_cases first : FirstAgree ec spec.entity (listedMembers j)
  · by_cases agree : AllAgree ec spec.entity (listedMembers j)
    · have meant : ExpectedHolds ec spec.entity spec.exact (listedMembers j) ↔
          (spec.exact = true → (ec.components spec.entity).length =
            (nonNullNames (listedMembers j)).length) := by
        constructor
        · exact fun holds exact => (only_iff_length consistent agree).mp (holds.only exact)
        · exact fun same => ⟨agree, fun exact => (only_iff_length consistent agree).mpr (same exact)⟩
      rw [meant, CountDecides, ← nonNullNames_length_eq_iff]
      simp only [first, agree, true_and, not_true_eq_false, false_or, false_and, or_false]
      cases spec.exact with
      | false => simp
      | true =>
          simp only [forall_const]
          omega
    · have fails : ¬ ExpectedHolds ec spec.entity spec.exact (listedMembers j) :=
        fun holds => agree holds.values
      simp only [CountDecides, first, agree, fails, true_and, iff_false, not_true_eq_false,
        false_or, false_and, not_false_eq_true]
      cases spec.exact <;> simp
  · have fails : ¬ ExpectedHolds ec spec.entity spec.exact (listedMembers j) :=
      fun holds => first (AllAgree.firstAgree holds.values)
    simp [CountDecides, first, fails]

/-- A specification that lists the one component attached. -/
theorem expected_validates_iff_one_component :
    payecsSetcomponentsExpect1 (ecAfter [⟨1, "a".toList, some (.primitive "1".toList)⟩])
        ⟨1, true, (∅ : Std.ExtTreeMap Text Json).insertIfNew "a".toList (.primitive "1".toList), 1⟩ =
          .ok true ↔
      ExpectedHolds (ecAfter [⟨1, "a".toList, some (.primitive "1".toList)⟩]) 1 true
        [("a".toList, .primitive "1".toList)] := by
  refine (expected_validates_iff (consistent_ecAfter _) (j := .tight
    [("entity".toList, .primitive "1".toList), ("exact".toList, .primitive "true".toList),
      ("a".toList, .primitive "1".toList)]) rfl).mpr (.inr (.inl ⟨?_, fun _ => .inl ?_⟩))
  · intro m member
    cases List.mem_singleton.mp member
    decide
  · exact ⟨by decide, by decide⟩

/-- `a` and `b` are attached; a specification that is `exact` and lists `a` with its
    value and `c` with `null` is taken to hold, since two members are listed. -/
theorem exact_expected_misses_component :
    let ec := ecAfter [⟨1, "a".toList, some (.primitive "1".toList)⟩,
      ⟨1, "b".toList, some (.primitive "2".toList)⟩]
    let j : Json := .tight
      [("entity".toList, .primitive "1".toList), ("exact".toList, .primitive "true".toList),
        ("a".toList, .primitive "1".toList), ("c".toList, .primitive "null".toList)]
    ∃ spec, jsonToPayecsWritespec j = some spec ∧
      ¬ (payecsSetcomponentsExpect1 ec spec = .ok true ↔
        ExpectedHolds ec spec.entity spec.exact (listedMembers j)) := by
  refine ⟨⟨1, true, ((∅ : Std.ExtTreeMap Text Json).insertIfNew "a".toList
    (.primitive "1".toList)).insertIfNew "c".toList (.primitive "null".toList), 2⟩, rfl, ?_⟩
  intro same
  have holds := same.mp rfl
  obtain ⟨value, listed, -⟩ := (holds.only rfl "b".toList).mp (by decide)
  have names : "b".toList ∈ (listedMembers (.tight
      [("entity".toList, .primitive "1".toList), ("exact".toList, .primitive "true".toList),
        ("a".toList, .primitive "1".toList), ("c".toList, .primitive "null".toList)])).map
          Prod.fst := List.mem_map.mpr ⟨_, listed, rfl⟩
  revert names
  decide

end Payz
