import Payz.Ecs.Ec
import Payz.Json.Out

/-! # The `lightningd:systems` component

`plugins/payz/setsystems.c`.  A member of the component is changed by writing the
whole object out again and parsing the text.  On JSON data this replaces the
member and keeps the others, `withMember`.
-/

namespace Payz

def syscomp : Text := "lightningd:systems".toList

/-- `payz_generic_setsystems_tok`: a value of `none` is a C `NULL` and removes the
    field.  Setting a component with a buffer that did not parse is an assertion. -/
def payzGenericSetsystemsTok (ec : Ec) (entity : UInt32) (fieldname : Text) (value : Option Json) :
    Except Fault Ec :=
  let js := jsonOutStart jsonOutNew none '{'
  let js :=
    match (ecGetComponent ec entity syscomp).2 with
    | .object _ members =>
        members.foldl
          (fun js m => if m.1 = fieldname then js else jsonAddTok js (some m.1) m.2) js
    | _ => js
  let js :=
    match value with
    | some value => jsonAddTok js (some fieldname) value
    | none => js
  let js := jsonOutEnd js '}'
  match jsonParseSimple js.outbuf with
  | none => .error .assertion
  | some ncomp => .ok (ecSetComponent ec entity syscomp (some ncomp))

/-- `payz_generic_getsystems_tal`, with the reader of the field. -/
def payzGenericGetsystemsTal {α : Type} (ec : Ec) (entity : UInt32) (fieldname : Text)
    (jsonToX : Json → Option α) : Option α :=
  match ecGetComponent ec entity syscomp with
  | (false, _) => none
  | (true, toks) => (toks.jsonGetMember fieldname).bind jsonToX

/-- `payz_generic_getsystems`, with the reader of the field. -/
def payzGenericGetsystems {α : Type} (ec : Ec) (entity : UInt32) (fieldname : Text)
    (jsonToX : Json → Option α) : Option α :=
  payzGenericGetsystemsTal ec entity fieldname jsonToX

/-! ## Replacing a member -/

/-- The members of an object, none of anything else. -/
def Json.members : Json → List (Text × Json)
  | .object _ members => members
  | _ => []

/-- The object with one member replaced, at its end, or removed. -/
def Json.withMember (j : Json) (fieldname : Text) (value : Option Json) : Json :=
  .tight ((j.members.filter fun m => m.1 ≠ fieldname) ++ (value.map fun v => (fieldname, v)).toList)

theorem writing_members (fieldname : Text) (members : List (Text × Json)) {out : JsonOut}
    {before : Text} {written : List (Text × Json)} (writing : out.Writing before written) :
    (members.foldl (fun js m => if m.1 = fieldname then js else jsonAddTok js (some m.1) m.2)
      out).Writing before (written ++ members.filter fun m => m.1 ≠ fieldname) := by
  induction members generalizing out written with
  | nil => simpa using writing
  | cons m members ih =>
      by_cases skip : m.1 = fieldname
      · simpa [skip] using ih writing
      · simpa [skip] using ih (writing.addTok m.1 m.2)

theorem members_wellFormed {j : Json} (wellFormed : j.WellFormed) :
    ∀ m ∈ j.members, StringText m.1 ∧ m.2.WellFormed := by
  cases wellFormed with
  | primitive | string | array => simp [Json.members]
  | object keys values _ => exact fun m member => ⟨keys m member, values m member⟩

theorem Json.WellFormed.withMember {j : Json} (wellFormed : j.WellFormed) {fieldname : Text}
    (key : StringText fieldname) {value : Option Json}
    (ok : ∀ v, value = some v → v.WellFormed) : (j.withMember fieldname value).WellFormed := by
  have all : ∀ m ∈ (j.members.filter fun m => m.1 ≠ fieldname) ++
      (value.map fun v => (fieldname, v)).toList, StringText m.1 ∧ m.2.WellFormed := by
    intro m member
    rcases List.mem_append.mp member with old | new
    · exact members_wellFormed wellFormed m (List.mem_filter.mp old).1
    · obtain ⟨v, same, rfl⟩ := Option.map_eq_some_iff.mp (Option.mem_toList.mp new)
      exact ⟨key, ok v same⟩
  exact .tight (fun m member => (all m member).1) (fun m member => (all m member).2)

theorem jsonGetMember_withMember_self (j : Json) (fieldname : Text) (value : Json) :
    (j.withMember fieldname (some value)).jsonGetMember fieldname = some value := by
  have skipped : (j.members.filter fun m => m.1 ≠ fieldname).find?
      (fun m => m.1 == fieldname) = none := by
    rw [List.find?_eq_none]
    intro m member same
    have differ := (List.mem_filter.mp member).2
    rw [decide_eq_true_eq] at differ
    exact differ (by simpa using same)
  simp only [Json.withMember, Json.tight, Json.jsonGetMember, List.find?_append, skipped,
    Option.map_some, Option.toList_some, Option.none_or]
  simp

theorem jsonGetMember_withMember_other (j : Json) {fieldname other : Text} (differ : other ≠ fieldname)
    (value : Option Json) :
    (j.withMember fieldname value).jsonGetMember other = j.jsonGetMember other := by
  have kept : (j.members.filter fun m => m.1 ≠ fieldname).find? (fun m => m.1 == other) =
      j.members.find? fun m => m.1 == other := by
    rw [List.find?_filter]
    congr 1
    funext m
    by_cases same : m.1 = other <;> simp [same, differ]
  have absent : ((value.map fun v => (fieldname, v)).toList).find? (fun m => m.1 == other) =
      none := by
    cases value <;> simp [differ.symm]
  have members : j.jsonGetMember other = (j.members.find? fun m => m.1 == other).map Prod.snd := by
    cases j <;> simp [Json.jsonGetMember, Json.members]
  rw [members]
  simp only [Json.withMember, Json.tight, Json.jsonGetMember, List.find?_append, kept, absent,
    Option.or_none]

theorem nullDatum_wellFormed : nullDatum.WellFormed := .primitive (.inl rfl)

/-- On JSON data the text that is written parses, and the member is replaced. -/
theorem payzGenericSetsystemsTok_eq {ec : Ec} (data : ec.All Json.WellFormed) (entity : UInt32)
    {fieldname : Text} (key : StringText fieldname) {value : Option Json}
    (ok : ∀ v, value = some v → v.WellFormed) :
    payzGenericSetsystemsTok ec entity fieldname value =
      .ok (ecSetComponent ec entity syscomp (some
        ((ec.current entity syscomp).withMember fieldname value))) := by
  have wellFormed := data.current nullDatum_wellFormed entity syscomp
  have parsed := jsonParseSimple_wellFormed (wellFormed.withMember key ok)
  have members := writing_members fieldname (ec.current entity syscomp).members
    JsonOut.Writing.start_root
  have copied : (match (ecGetComponent ec entity syscomp).2 with
      | .object _ members =>
          members.foldl
            (fun js m => if m.1 = fieldname then js else jsonAddTok js (some m.1) m.2)
            (jsonOutStart jsonOutNew none '{')
      | _ => jsonOutStart jsonOutNew none '{') =
      (ec.current entity syscomp).members.foldl
        (fun js m => if m.1 = fieldname then js else jsonAddTok js (some m.1) m.2)
        (jsonOutStart jsonOutNew none '{') := by
    rw [ecGetComponent_eq]
    cases ec.current entity syscomp <;> rfl
  unfold payzGenericSetsystemsTok
  simp only [copied]
  cases value with
  | none =>
      have text := members.finish
      simp only [List.nil_append] at text
      simp only [text]
      simp only [Json.withMember, Option.map_none, Option.toList_none, List.append_nil] at parsed ⊢
      rw [parsed]
  | some v =>
      have text := (members.addTok fieldname v).finish
      simp only [List.nil_append] at text
      simp only [text]
      simp only [Json.withMember, Option.map_some, Option.toList_some] at parsed ⊢
      rw [parsed]

/-! ## The laws of the update -/

/-- An object that differs from the old datum in the members with one name only: there is
    one with the value, or none. -/
structure MemberReplaced (fieldname : Text) (value : Option Json) (old new : Json) : Prop where
  wellFormed : new.WellFormed
  object : ∃ text, new = .object text new.members
  field : (new.members.filter fun m => m.1 = fieldname) =
    (value.map fun v => (fieldname, v)).toList
  others : (new.members.filter fun m => m.1 ≠ fieldname) =
    old.members.filter fun m => m.1 ≠ fieldname

theorem filter_self (fieldname : Text) (value : Option Json) :
    ((value.map fun v => (fieldname, v)).toList.filter fun m => m.1 = fieldname) =
      (value.map fun v => (fieldname, v)).toList := by
  cases value <;> simp

theorem filter_other {fieldname other : Text} (differ : fieldname ≠ other) (value : Option Json) :
    ((value.map fun v => (fieldname, v)).toList.filter fun m => m.1 ≠ other) =
      (value.map fun v => (fieldname, v)).toList := by
  cases value <;> simp [differ]

theorem members_withMember (j : Json) (fieldname : Text) (value : Option Json) :
    (j.withMember fieldname value).members = (j.members.filter fun m => m.1 ≠ fieldname) ++
      (value.map fun v => (fieldname, v)).toList := rfl

theorem others_withMember (j : Json) (fieldname : Text) (value : Option Json) :
    ((j.withMember fieldname value).members.filter fun m => m.1 ≠ fieldname) =
      j.members.filter fun m => m.1 ≠ fieldname := by
  have gone : ((value.map fun v => (fieldname, v)).toList.filter fun m => m.1 ≠ fieldname) =
      [] := by
    cases value <;> simp
  rw [members_withMember, List.filter_append, gone, List.append_nil, List.filter_filter]
  simp

theorem memberReplaced_withMember {j : Json} (wellFormed : j.WellFormed) {fieldname : Text}
    (key : StringText fieldname) {value : Option Json}
    (ok : ∀ v, value = some v → v.WellFormed) :
    MemberReplaced fieldname value j (j.withMember fieldname value) where
  wellFormed := wellFormed.withMember key ok
  object := ⟨_, rfl⟩
  field := by
    have skipped : ((j.members.filter fun m => m.1 ≠ fieldname).filter fun m => m.1 = fieldname) =
        [] := by
      rw [List.filter_filter, List.filter_eq_nil_iff]
      simp
    rw [members_withMember, List.filter_append, filter_self, skipped, List.nil_append]
  others := others_withMember j fieldname value

theorem jsonGetMember_withMember_same (j : Json) (fieldname : Text) (value : Option Json) :
    (j.withMember fieldname value).jsonGetMember fieldname = value := by
  cases value with
  | some v => exact jsonGetMember_withMember_self j fieldname v
  | none =>
      simp [Json.withMember, Json.tight, Json.jsonGetMember]

theorem withMember_withMember (j : Json) (fieldname : Text) (value value' : Option Json) :
    (j.withMember fieldname value).withMember fieldname value' = j.withMember fieldname value' := by
  rw [Json.withMember, others_withMember, ← Json.withMember]

/-- Updates of different members commute but for the order of the members. -/
theorem withMember_comm (j : Json) {fieldname fieldname' : Text} (differ : fieldname ≠ fieldname')
    (value value' : Option Json) :
    ((j.withMember fieldname value).withMember fieldname' value').members.Perm
      ((j.withMember fieldname' value').withMember fieldname value).members := by
  have kept : (j.members.filter fun m => m.1 ≠ fieldname').filter (fun m => m.1 ≠ fieldname) =
      (j.members.filter fun m => m.1 ≠ fieldname).filter fun m => m.1 ≠ fieldname' := by
    rw [List.filter_comm]
  simp only [members_withMember, List.filter_append, filter_other differ, filter_other differ.symm,
    kept, List.append_assoc]
  exact List.Perm.append_left _ List.perm_append_comm

theorem payzGenericGetsystems_eq {α : Type} (ec : Ec) (entity : UInt32) (fieldname : Text)
    (jsonToX : Json → Option α) :
    payzGenericGetsystems ec entity fieldname jsonToX =
      (ec.cell entity syscomp).bind fun toks => (toks.jsonGetMember fieldname).bind jsonToX := by
  rw [payzGenericGetsystems, payzGenericGetsystemsTal, ecGetComponent_eq, Ec.current]
  cases ec.cell entity syscomp <;> rfl

/-- The component has this value in the second table; all other cells are those of the first. -/
structure SystemsSet (entity : UInt32) (new : Json) (ec ec' : Ec) : Prop where
  component : ec'.cell entity syscomp = some new
  others : ∀ entity' component, ¬ (entity = entity' ∧ syscomp = component) →
    ec'.cell entity' component = ec.cell entity' component

theorem tight_jsonTokIsNull (members : List (Text × Json)) :
    (Json.tight members).jsonTokIsNull = false := rfl

theorem systemsSet_withMember (ec : Ec) (entity : UInt32) (j : Json) (fieldname : Text)
    (value : Option Json) :
    SystemsSet entity (j.withMember fieldname value) ec
      (ecSetComponent ec entity syscomp (some (j.withMember fieldname value))) where
  component := by
    rw [cell_ecSetComponent_self, attached_some, Json.withMember, tight_jsonTokIsNull]
    rfl
  others entity' component other := by rw [cell_ecSetComponent, if_neg other]

theorem SystemsSet.trans {entity : UInt32} {new new' : Json} {ec ec₁ ec₂ : Ec}
    (first : SystemsSet entity new ec ec₁) (second : SystemsSet entity new' ec₁ ec₂) :
    SystemsSet entity new' ec ec₂ where
  component := second.component
  others entity' component other :=
    (second.others entity' component other).trans (first.others entity' component other)

theorem SystemsSet.current {entity : UInt32} {new : Json} {ec ec' : Ec}
    (set : SystemsSet entity new ec ec') : ec'.current entity syscomp = new := by
  rw [Ec.current, set.component, Option.getD_some]

/-- `payz_generic_setsystems_tok` replaces one member of the component and nothing else: the
    value can be read back, a later update overrides an earlier one, and updates of different
    members commute but for the order of the members. -/
theorem setsystems_lawful {ec : Ec} (consistent : ec.Consistent) (data : ec.All Json.WellFormed)
    (entity : UInt32) {fieldname : Text} (plain : jsonEscapeNeeded fieldname = false)
    {value : Option Json} (ok : ∀ v, value = some v → v.WellFormed) :
    ∃ ec', payzGenericSetsystemsTok ec entity fieldname value = .ok ec' ∧
      (∃ new, SystemsSet entity new ec ec' ∧
        MemberReplaced fieldname value (ec.current entity syscomp) new) ∧
      (∀ (α : Type) (jsonToX : Json → Option α),
        payzGenericGetsystems ec' entity fieldname jsonToX = value.bind jsonToX) ∧
      (∀ value', (∀ v, value' = some v → v.WellFormed) →
        payzGenericSetsystemsTok ec' entity fieldname value' =
          payzGenericSetsystemsTok ec entity fieldname value') ∧
      ∀ fieldname' value', jsonEscapeNeeded fieldname' = false → fieldname ≠ fieldname' →
        (∀ v, value' = some v → v.WellFormed) →
        ∃ ec'' ec₁ ec₂ new₁ new₂,
          payzGenericSetsystemsTok ec entity fieldname' value' = .ok ec'' ∧
          payzGenericSetsystemsTok ec' entity fieldname' value' = .ok ec₁ ∧
          payzGenericSetsystemsTok ec'' entity fieldname value = .ok ec₂ ∧
          SystemsSet entity new₁ ec ec₁ ∧ SystemsSet entity new₂ ec ec₂ ∧
          new₁.members.Perm new₂.members := by
  have key := StringText.of_unescaped plain
  have wellFormed := data.current nullDatum_wellFormed entity syscomp
  have data_set : ∀ {f : Text} {v : Option Json}, StringText f →
      (∀ w, v = some w → w.WellFormed) → (ecSetComponent ec entity syscomp
        (some ((ec.current entity syscomp).withMember f v))).All Json.WellFormed := by
    intro f v text value_ok
    refine data.set entity syscomp fun datum same => ?_
    cases same
    exact wellFormed.withMember text value_ok
  have set := systemsSet_withMember ec entity (ec.current entity syscomp) fieldname value
  refine ⟨_, payzGenericSetsystemsTok_eq data entity key ok,
    ⟨_, set, memberReplaced_withMember wellFormed key ok⟩, ?_, ?_, ?_⟩
  · intro α jsonToX
    rw [payzGenericGetsystems_eq, set.component, Option.bind_some, jsonGetMember_withMember_same]
  · intro value' ok'
    rw [payzGenericSetsystemsTok_eq (data_set key ok) entity key ok',
      payzGenericSetsystemsTok_eq data entity key ok', set.current, withMember_withMember]
    refine congrArg Except.ok (Ec.ext_cell ((consistent.set _ _ _).set _ _ _)
      (consistent.set _ _ _) ?_ ?_)
    · simp only [nextEntity_ecSetComponent]
    · intro entity' component
      simp only [cell_ecSetComponent]
      split_ifs <;> rfl
  · intro fieldname' value' plain' differ ok'
    have key' := StringText.of_unescaped plain'
    have set' := systemsSet_withMember ec entity (ec.current entity syscomp) fieldname' value'
    refine ⟨_, _, _, _, _, payzGenericSetsystemsTok_eq data entity key' ok',
      payzGenericSetsystemsTok_eq (data_set key ok) entity key' ok',
      payzGenericSetsystemsTok_eq (data_set key' ok') entity key ok,
      set.trans (systemsSet_withMember _ entity _ fieldname' value'),
      set'.trans (systemsSet_withMember _ entity _ fieldname value), ?_⟩
    rw [set.current, set'.current]
    exact withMember_comm _ differ value value'

def twiceCurrent : Json :=
  .tight [("current".toList, nullDatum), ("systems".toList, .tightArray []),
    ("current".toList, .primitive (formatU 1))]

/-- Both go where one is set, the other member stays, and removing `current` afterwards is no
    different from removing it at once. -/
theorem setsystems_lawful_repeated :
    ∃ ec' new, payzGenericSetsystemsTok (ecSetComponent ecNew 1 syscomp (some twiceCurrent)) 1
        "current".toList (some (.primitive (formatU 2))) = .ok ec' ∧
      ec'.cell 1 syscomp = some new ∧
      (new.members.filter fun m => m.1 = "current".toList) =
        [("current".toList, .primitive (formatU 2))] ∧
      (new.members.filter fun m => m.1 ≠ "current".toList) =
        [("systems".toList, .tightArray [])] ∧
      payzGenericGetsystems ec' 1 "current".toList Json.jsonToU64 = some 2 ∧
      payzGenericSetsystemsTok ec' 1 "current".toList none =
        payzGenericSetsystemsTok (ecSetComponent ecNew 1 syscomp (some twiceCurrent)) 1
          "current".toList none := by
  have current : StringText "current".toList := .of_plain rfl
  have systems : StringText "systems".toList := .of_plain rfl
  have wellFormed : twiceCurrent.WellFormed := by
    refine .tight ?_ ?_ <;> simp only [List.forall_mem_cons]
    · exact ⟨current, systems, current, List.forall_mem_nil _⟩
    · exact ⟨nullDatum_wellFormed, .tightArray (List.forall_mem_nil _), .formatU 1, List.forall_mem_nil _⟩
  have data : (ecSetComponent ecNew 1 syscomp (some twiceCurrent)).All Json.WellFormed := by
    intro entity component datum found
    refine Ec.All.set (Ec.all_ecNew _) 1 syscomp (fun datum same => ?_) found
    cases same
    exact wellFormed
  have before : (ecSetComponent ecNew 1 syscomp (some twiceCurrent)).current 1 syscomp =
      twiceCurrent := by
    rw [Ec.current, cell_ecSetComponent_self, attached_some, twiceCurrent, tight_jsonTokIsNull]
    rfl
  have ok : ∀ v, some (Json.primitive (formatU 2)) = some v → v.WellFormed := by
    rintro v same
    cases same
    exact .formatU 2
  obtain ⟨ec', set, ⟨new, component, replaced⟩, read, later, -⟩ :=
    setsystems_lawful (Ec.consistent_ecNew.set 1 syscomp _) data 1
      (rfl : jsonEscapeNeeded "current".toList = false) ok
  have others := replaced.others
  rw [before] at others
  exact ⟨ec', new, set, component.component, replaced.field, others.trans (by decide),
    (read _ _).trans (by decide), later none fun _ same => by cases same⟩

end Payz
