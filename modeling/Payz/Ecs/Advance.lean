import Payz.Ecs.History
import Payz.Ecs.Register
import Payz.Json.Said

/-! # Which system an advance selects

The first name in the `systems` list whose system matches decides, unless a name that
is not registered comes before it.  Whatever the outcome, an advance changes the
`lightningd:systems` component of its entity and no other cell.  What it sends says what the
table holds exactly if the names of the required components can be keys.
-/

namespace Payz

def NamesSystems (ec : Ec) (entity : UInt32) (names : List Text) : Prop :=
  ∃ text members value, ec.cell entity syscomp = some (.object text members) ∧
    Json.jsonGetMember (.object text members) "systems".toList = some value ∧
    jsonToArrayOfStrings value = some names

structure Matches (ec : Ec) (entity : UInt32) (system : EcsysRegistered) : Prop where
  nonempty : system.requiredComponents ≠ []
  required : ∀ component ∈ system.requiredComponents, (ec.cell entity component).isSome
  disallowed : ∀ component ∈ system.disallowedComponents, ec.cell entity component = none

/-- The name is registered, and its system matches. -/
def NameMatches (systems : SystemMap) (ec : Ec) (entity : UInt32) (name : Text) : Prop :=
  ∃ system, systems.map[name]? = some system ∧ Matches ec entity system

theorem systemMatches_iff (ec : Ec) (entity : UInt32) (system : EcsysRegistered) :
    systemMatches ec entity system = true ↔ Matches ec entity system := by
  simp only [systemMatches, ecGetComponent_eq, Bool.and_eq_true, Bool.not_eq_true',
    List.isEmpty_eq_false_iff, List.all_eq_true, Option.isSome_eq_false_iff,
    Option.isNone_iff_eq_none]
  exact ⟨fun h => ⟨h.1.1, h.1.2, h.2⟩, fun h => ⟨⟨h.nonempty, h.required⟩, h.disallowed⟩⟩

theorem namesSystems_iff (ec : Ec) (entity : UInt32) (names : List Text) :
    payzGenericGetsystemsTal ec entity "systems".toList jsonToArrayOfStrings = some names ↔
      NamesSystems ec entity names := by
  rw [payzGenericGetsystemsTal, ecGetComponent_eq, NamesSystems]
  cases found : ec.cell entity syscomp with
  | none => simp
  | some datum =>
      simp only [Option.isSome_some, Ec.current, found, Option.getD_some, Option.bind_eq_some_iff]
      constructor
      · rintro ⟨value, member, decoded⟩
        cases datum with
        | object text members => exact ⟨text, members, value, rfl, member, decoded⟩
        | primitive | string | array => simp [Json.jsonGetMember] at member
      · rintro ⟨text, members, value, same, member, decoded⟩
        cases same
        exact ⟨value, member, decoded⟩

/-! ## The search -/

/-- Names whose systems are registered and do not match are passed over. -/
theorem searchSystem_skip {systems : SystemMap} {ec : Ec} {entity : UInt32} {first : List Text}
    (passed : ∀ name ∈ first, systems.map[name]?.isSome ∧ ¬ NameMatches systems ec entity name)
    (i : Nat) (rest : List Text) :
    searchSystem systems ec entity i (first ++ rest) =
      searchSystem systems ec entity (i + first.length) rest := by
  induction first generalizing i with
  | nil => simp
  | cons name first ih =>
      rw [List.forall_mem_cons] at passed
      obtain ⟨⟨registered, unmatched⟩, later⟩ := passed
      obtain ⟨system, found⟩ := Option.isSome_iff_exists.mp registered
      have differs : systemMatches ec entity system = false := by
        rw [Bool.eq_false_iff, ne_eq, systemMatches_iff]
        exact fun hit => unmatched ⟨system, found, hit⟩
      simp only [List.cons_append, searchSystem, found, differs, Bool.false_eq_true, if_false,
        ih later, List.length_cons, Nat.add_assoc, Nat.add_comm 1]

theorem searchSystem_found {systems : SystemMap} {ec : Ec} {entity : UInt32}
    {first : List Text} {name : Text} {system : EcsysRegistered}
    (passed : ∀ name ∈ first, systems.map[name]?.isSome ∧ ¬ NameMatches systems ec entity name)
    (registered : systems.map[name]? = some system) (hit : Matches ec entity system)
    (rest : List Text) :
    searchSystem systems ec entity 0 (first ++ name :: rest) = .found first.length system := by
  rw [searchSystem_skip passed, searchSystem, registered]
  simp only [(systemMatches_iff ec entity system).mpr hit, if_true, Nat.zero_add]

/-- A name that is not registered ends the search, if no system before it matches. -/
theorem searchSystem_unregistered {systems : SystemMap} {ec : Ec} {entity : UInt32}
    {first : List Text} (missing : ∃ name ∈ first, systems.map[name]? = none)
    (unmatched : ∀ name ∈ first, ¬ NameMatches systems ec entity name) (rest : List Text) :
    ∃ name, searchSystem systems ec entity 0 (first ++ rest) = .unregistered name := by
  obtain ⟨name, hit⟩ : ∃ name, first.find? (fun name => systems.map[name]?.isNone) = some name := by
    rw [← Option.isSome_iff_exists, List.find?_isSome]
    obtain ⟨name, member, absent⟩ := missing
    exact ⟨name, member, by simp [absent]⟩
  obtain ⟨absent, front, back, rfl, earlier⟩ := List.find?_eq_some_iff_append.mp hit
  refine ⟨name, ?_⟩
  have passed : ∀ name ∈ front, systems.map[name]?.isSome ∧
      ¬ NameMatches systems ec entity name := by
    intro other member
    refine ⟨by simpa using earlier other member, unmatched other (by simp [member])⟩
  rw [List.append_assoc, searchSystem_skip passed, List.cons_append, searchSystem,
    Option.isNone_iff_eq_none.mp absent]

theorem searchSystem_none {systems : SystemMap} {ec : Ec} {entity : UInt32} {names : List Text}
    (passed : ∀ name ∈ names, systems.map[name]?.isSome ∧ ¬ NameMatches systems ec entity name) :
    searchSystem systems ec entity 0 names = .none := by
  have whole := searchSystem_skip passed 0 []
  rw [List.append_nil] at whole
  rw [whole, searchSystem]

/-- A system is found at the first name, or behind it if that one does not match. -/
theorem searchSystem_cons_found {systems : SystemMap} {ec : Ec} {entity : UInt32} {name : Text}
    {names : List Text} {i current : Nat} {system : EcsysRegistered}
    (found : searchSystem systems ec entity i (name :: names) = .found current system) :
    ∃ first, systems.map[name]? = some first ∧
      (Matches ec entity first ∧ current = i ∧ system = first ∨
        ¬ Matches ec entity first ∧
          searchSystem systems ec entity (i + 1) names = .found current system) := by
  rw [searchSystem] at found
  cases registered : systems.map[name]? with
  | none => simp [registered] at found
  | some first =>
      simp only [registered] at found
      refine ⟨first, rfl, ?_⟩
      rw [← systemMatches_iff]
      split_ifs at found with hit
      · cases found
        exact .inl ⟨hit, rfl, rfl⟩
      · exact .inr ⟨hit, found⟩

/-- A system that is found was looked up under one of the names, and matches. -/
theorem searchSystem_sound {systems : SystemMap} {ec : Ec} {entity : UInt32} {names : List Text}
    {i current : Nat} {system : EcsysRegistered}
    (found : searchSystem systems ec entity i names = .found current system) :
    systems.map[system.system]? = some system ∧ system.system ∈ names ∧
      Matches ec entity system := by
  induction names generalizing i with
  | nil => simp [searchSystem] at found
  | cons name names ih =>
      obtain ⟨first, registered, ⟨hit, -, rfl⟩ | ⟨-, later⟩⟩ := searchSystem_cons_found found
      · rw [systems.keyed registered]
        exact ⟨registered, List.mem_cons_self, hit⟩
      · obtain ⟨there, member, hit⟩ := ih later
        exact ⟨there, List.mem_cons_of_mem _ member, hit⟩

/-- What comes before the system that is found: names that are registered and do not match. -/
theorem searchSystem_split {systems : SystemMap} {ec : Ec} {entity : UInt32} {names : List Text}
    {i current : Nat} {system : EcsysRegistered}
    (found : searchSystem systems ec entity i names = .found current system) :
    ∃ first rest, names = first ++ system.system :: rest ∧ current = i + first.length ∧
      ∀ name ∈ first, systems.map[name]?.isSome ∧ ¬ NameMatches systems ec entity name := by
  induction names generalizing i with
  | nil => simp [searchSystem] at found
  | cons name names ih =>
      obtain ⟨other, registered, ⟨-, rfl, rfl⟩ | ⟨miss, later⟩⟩ := searchSystem_cons_found found
      · exact ⟨[], names, by rw [systems.keyed registered]; rfl, rfl, by simp⟩
      · obtain ⟨first, rest, rfl, rfl, passed⟩ := ih later
        refine ⟨name :: first, rest, rfl, by rw [List.length_cons]; omega, ?_⟩
        refine List.forall_mem_cons.mpr ⟨⟨by simp [registered], ?_⟩, passed⟩
        rintro ⟨same, there, hit⟩
        rw [registered, Option.some.injEq] at there
        subst there
        exact miss hit

/-! ## What an advance leaves alone -/

theorem advanceSpec_ec (systems : SystemMap) (ec : Ec) (entity : UInt32) :
    ∃ fieldname value, (advanceSpec systems ec entity).ec =
      ecSetComponent ec entity syscomp (some
        ((ec.current entity syscomp).withMember fieldname (some value))) ∧
      StringText fieldname ∧ value.WellFormed := by
  have error : StringText "error".toList := .of_plain rfl
  have current : StringText "current".toList := .of_plain rfl
  unfold advanceSpec
  cases payzGenericGetsystemsTal ec entity "systems".toList jsonToArrayOfStrings with
  | none => exact ⟨_, _, rfl, error, ecsysError_wellFormed _ _⟩
  | some names =>
      simp only
      cases searchSystem systems ec entity 0 names with
      | unregistered name => exact ⟨_, _, rfl, error, ecsysError_wellFormed _ _⟩
      | none => exact ⟨_, _, rfl, error, ecsysError_wellFormed _ _⟩
      | found index system => exact ⟨_, _, rfl, current, .formatU index⟩

theorem cell_advanceSpec (systems : SystemMap) (ec : Ec) (entity : UInt32) {entity' : UInt32}
    {component : Text} (other : ¬ (entity = entity' ∧ syscomp = component)) :
    (advanceSpec systems ec entity).ec.cell entity' component = ec.cell entity' component := by
  obtain ⟨fieldname, value, same, -, -⟩ := advanceSpec_ec systems ec entity
  rw [same, cell_ecSetComponent, if_neg other]

theorem cell_advanceSpec_self (systems : SystemMap) (ec : Ec) (entity : UInt32) :
    ∃ text members, (advanceSpec systems ec entity).ec.cell entity syscomp =
      some (.object text members) := by
  obtain ⟨fieldname, value, same, -, -⟩ := advanceSpec_ec systems ec entity
  rw [same, cell_ecSetComponent_self, attached_some]
  exact ⟨_, _, rfl⟩

theorem consistent_advanceSpec {ec : Ec} (consistent : ec.Consistent) (systems : SystemMap)
    (entity : UInt32) : (advanceSpec systems ec entity).ec.Consistent := by
  obtain ⟨fieldname, value, same, -, -⟩ := advanceSpec_ec systems ec entity
  rw [same]
  exact consistent.set _ _ _

theorem wellFormed_advanceSpec {ec : Ec} (data : ec.All Json.WellFormed) (systems : SystemMap)
    (entity : UInt32) : (advanceSpec systems ec entity).ec.All Json.WellFormed := by
  obtain ⟨fieldname, value, same, key, wellFormed⟩ := advanceSpec_ec systems ec entity
  rw [same]
  refine data.set _ _ ?_
  rintro datum equal
  cases equal
  refine (data.current nullDatum_wellFormed entity syscomp).withMember key ?_
  rintro v equal
  cases equal
  exact wellFormed

theorem errorMessage_afterError (ec : Ec) (entity : UInt32) (code : Int) (msg : Text) :
    errorMessage (afterError ec entity code msg) entity = some (jsonEscape msg) := by
  have after : (afterError ec entity code msg).current entity syscomp =
      (ec.current entity syscomp).withMember "error".toList (some (ecsysError code msg)) := by
    rw [Ec.current, afterError, cell_ecSetComponent_self, attached_some]
    rfl
  have message : (ecsysError code msg).jsonGetMember "message".toList =
      some (.string (jsonEscape msg)) := rfl
  simp only [errorMessage, ecGetComponent_eq, after, jsonGetMember_withMember_self,
    Option.bind_some, message, Option.map_some, Json.jsonStrdup]

theorem advanceSpec_cases (systems : SystemMap) (ec : Ec) (entity : UInt32) :
    (∃ code msg, advanceSpec systems ec entity =
      ⟨afterError ec entity code msg, [], some code⟩) ∨
    (∃ names current system, NamesSystems ec entity names ∧
      searchSystem systems ec entity 0 names = .found current system ∧
      advanceSpec systems ec entity = ⟨afterCurrent ec entity current,
        [runSystem (afterCurrent ec entity current) entity system], none⟩) := by
  unfold advanceSpec
  cases named : payzGenericGetsystemsTal ec entity "systems".toList jsonToArrayOfStrings with
  | none => exact .inl ⟨_, _, rfl⟩
  | some names =>
      simp only
      cases found : searchSystem systems ec entity 0 names with
      | unregistered name => exact .inl ⟨_, _, rfl⟩
      | none => exact .inl ⟨_, _, rfl⟩
      | found current system =>
          exact .inr ⟨names, current, system, (namesSystems_iff ec entity names).mp named, found, rfl⟩

theorem ecsysAdvanceDone_eq (systems : SystemMap) {ec : Ec} (data : ec.All Json.WellFormed)
    (entity : UInt32) : ecsysAdvanceDone systems ec entity = .ok (advanceSpec systems ec entity) := by
  rw [ecsysAdvanceDone, ecsysAdvance_eq systems data]
  rcases advanceSpec_cases systems ec entity with ⟨code, msg, same⟩ | ⟨_, _, _, _, _, same⟩
  · simp [same, errorMessage_afterError]
  · simp [same]

/-! ## The notification and the table it leaves -/

/-- The notification is what `run_system` would write for this table: its system
    matches, and it carries the current values. -/
def Notification.Current (systems : SystemMap) (ec : Ec) (n : Notification) : Prop :=
  ∃ system, systems.map[n.system]? = some system ∧ Matches ec n.entity system ∧
    n = runSystem ec n.entity system

theorem Matches.congr {ec ec' : Ec} {entity : UInt32} {system : EcsysRegistered}
    (hit : Matches ec entity system)
    (same : ∀ component ∈ system.requiredComponents ++ system.disallowedComponents,
      (ec'.cell entity component).isSome = (ec.cell entity component).isSome) :
    Matches ec' entity system where
  nonempty := hit.nonempty
  required component member := by
    rw [same component (List.mem_append_left _ member)]
    exact hit.required component member
  disallowed component member := by
    rw [← Option.isNone_iff_eq_none, ← Option.not_isSome,
      same component (List.mem_append_right _ member), hit.disallowed component member]
    rfl

/-- A notification stays current while its entity is left alone. -/
theorem Notification.Current.congr {systems : SystemMap} {ec ec' : Ec} {n : Notification}
    (current : n.Current systems ec)
    (same : ∀ component, ec'.cell n.entity component = ec.cell n.entity component) :
    n.Current systems ec' := by
  obtain ⟨system, registered, hit, written⟩ := current
  refine ⟨system, registered, hit.congr fun component _ => by rw [same], ?_⟩
  simp only [runSystem, ecGetComponent_eq, Ec.current, same] at written ⊢
  exact written

theorem matches_single {ec : Ec} {entity : UInt32} {system : EcsysRegistered}
    {required disallowed : Text} (requires : system.requiredComponents = [required])
    (disallows : system.disallowedComponents = [disallowed]) :
    Matches ec entity system ↔
      (ec.cell entity required).isSome ∧ ec.cell entity disallowed = none := by
  constructor
  · intro hit
    exact ⟨hit.required _ (by simp [requires]), hit.disallowed _ (by simp [disallows])⟩
  · rintro ⟨there, absent⟩
    refine ⟨by simp [requires], ?_, ?_⟩
    · rw [requires]
      exact List.forall_mem_singleton.mpr there
    · rw [disallows]
      exact List.forall_mem_singleton.mpr absent

/-- An advance that finds a system has found the component attached. -/
theorem isSome_cell_advanceSpec {systems : SystemMap} {ec : Ec} {entity : UInt32}
    {names : List Text} (named : NamesSystems ec entity names) (component : Text) :
    ((advanceSpec systems ec entity).ec.cell entity component).isSome =
      (ec.cell entity component).isSome := by
  by_cases own : syscomp = component
  · subst own
    obtain ⟨text, members, after⟩ := cell_advanceSpec_self systems ec entity
    obtain ⟨text', members', value, before, -, -⟩ := named
    rw [after, before]
    rfl
  · rw [cell_advanceSpec systems ec entity (by simp [own])]

/-- At most one notification is raised, for this entity, and it is current. -/
theorem advanceSpec_emitted (systems : SystemMap) (ec : Ec) (entity : UInt32) :
    (advanceSpec systems ec entity).emitted = [] ∨
      ∃ n, (advanceSpec systems ec entity).emitted = [n] ∧ n.entity = entity ∧
        n.Current systems (advanceSpec systems ec entity).ec ∧
        ∃ names, NamesSystems ec entity names ∧ n.system ∈ names := by
  rcases advanceSpec_cases systems ec entity with
    ⟨code, msg, same⟩ | ⟨names, current, system, named, found, same⟩
  · exact .inl (by rw [same])
  · obtain ⟨registered, member, hit⟩ := searchSystem_sound found
    refine .inr ⟨runSystem (afterCurrent ec entity current) entity system, by rw [same], rfl,
      ⟨system, registered, ?_, ?_⟩, names, named, member⟩
    · exact hit.congr fun component _ => isSome_cell_advanceSpec named component
    · rw [same]
      rfl

/-! ## The list of systems stays -/

theorem namesSystems_iff_member {ec : Ec} {entity : UInt32} {names : List Text} :
    NamesSystems ec entity names ↔
      ((ec.current entity syscomp).jsonGetMember "systems".toList).bind jsonToArrayOfStrings =
        some names := by
  rw [← namesSystems_iff, payzGenericGetsystemsTal, ecGetComponent_eq]
  cases found : ec.cell entity syscomp with
  | none => simp [Ec.current, found, nullDatum, Json.jsonGetMember]
  | some datum => simp [Ec.current, found]

theorem current_withMember (ec : Ec) (entity : UInt32) (fieldname : Text) (value : Json) :
    (ecSetComponent ec entity syscomp (some
      ((ec.current entity syscomp).withMember fieldname (some value)))).current entity syscomp =
        (ec.current entity syscomp).withMember fieldname (some value) := by
  rw [Ec.current, cell_ecSetComponent_self, attached_some]
  rfl

def systemsMember (ec : Ec) (entity : UInt32) : Option Json :=
  (ec.current entity syscomp).jsonGetMember "systems".toList

theorem systemsMember_withMember (ec : Ec) (entity : UInt32) {fieldname : Text}
    (differ : "systems".toList ≠ fieldname) (value : Json) :
    systemsMember (ecSetComponent ec entity syscomp (some
      ((ec.current entity syscomp).withMember fieldname (some value)))) entity =
        systemsMember ec entity := by
  rw [systemsMember, current_withMember, jsonGetMember_withMember_other _ differ]
  rfl

theorem systemsMember_advanceSpec (systems : SystemMap) (ec : Ec) (entity : UInt32) :
    systemsMember (advanceSpec systems ec entity).ec entity = systemsMember ec entity := by
  rcases advanceSpec_cases systems ec entity with ⟨code, msg, same⟩ | ⟨_, _, _, _, _, same⟩
  · rw [same]
    exact systemsMember_withMember ec entity (by decide) _
  · rw [same]
    exact systemsMember_withMember ec entity (by decide) _

theorem systemsMember_congr {ec ec' : Ec} {entity : UInt32}
    (same : ec'.cell entity syscomp = ec.cell entity syscomp) :
    systemsMember ec' entity = systemsMember ec entity := by
  rw [systemsMember, systemsMember, Ec.current, Ec.current, same]

theorem NamesSystems.of_member {ec ec' : Ec} {entity : UInt32} {names : List Text}
    (named : NamesSystems ec entity names)
    (same : systemsMember ec' entity = systemsMember ec entity) :
    NamesSystems ec' entity names := by
  rw [namesSystems_iff_member] at named ⊢
  exact (congrArg (·.bind jsonToArrayOfStrings) same).trans named

theorem namesSystems_advanceSpec {systems : SystemMap} {ec : Ec} {entity : UInt32}
    {names : List Text} (named : NamesSystems ec entity names) :
    NamesSystems (advanceSpec systems ec entity).ec entity names :=
  named.of_member (systemsMember_advanceSpec systems ec entity)

/-! ## What is sent -/

/-- A text names a system and an entity with these components. -/
def SaysNotification (text : Text) (system : Text) (entity : UInt32)
    (components : List (Text × Json)) : Prop :=
  ∃ object : Json,
    SaysMembers Json.WellFormed text
      [("system".toList, .string (jsonEscape system)), ("entity".toList, object)] ∧
    SaysMembers Json.WellFormed object.jsonTokFull
      (("entity".toList, .primitive (formatU entity.toNat)) :: components)

/-- What `run_system` writes is what it means to say, if the names can be keys. -/
theorem saysNotification_iff {n : Notification} (values : ∀ m ∈ n.components, m.2.WellFormed) :
    SaysNotification (runSystemText n) n.system n.entity n.components ↔
      ∀ m ∈ n.components, Quotable m.1 := by
  have word : Quotable "entity".toList := forall_mem_of_all rfl
  let inside : List (Text × Json) :=
    ("entity".toList, .primitive (formatU n.entity.toNat)) :: n.components
  constructor
  · rintro ⟨object, outer, inner⟩
    have room := outer.length_le (List.cons_ne_nil _ _)
    have short : object.jsonTokFull.length ≤ (Json.tight inside).jsonTokFull.length := by
      rw [runSystemText_eq, Notification.payload, length_tight (List.cons_ne_nil _ _),
        length_tight (List.cons_ne_nil _ _)] at room
      simp only [List.map_cons, List.sum_cons, memberWidth] at room
      dsimp only [inside]
      omega
    exact (List.forall_mem_cons.mp (inner.quotable (List.cons_ne_nil _ _) short)).2
  · intro plain
    have names : ∀ m ∈ inside, Quotable m.1 := List.forall_mem_cons.mpr ⟨word, plain⟩
    have data : ∀ m ∈ inside, m.2.WellFormed := List.forall_mem_cons.mpr ⟨.formatU _, values⟩
    have inner : (Json.tight inside).WellFormed :=
      .tight (fun m member => (quotable_iff.mp (names m member)).1) data
    have system : Quotable "system".toList := forall_mem_of_all rfl
    refine ⟨.tight inside, ?_, .tight names data⟩
    rw [runSystemText_eq]
    refine SaysMembers.tight ?_ ?_
    · exact List.forall_mem_cons.mpr ⟨system, List.forall_mem_singleton.mpr word⟩
    · exact List.forall_mem_cons.mpr ⟨.string (stringText_jsonEscape _),
        List.forall_mem_singleton.mpr inner⟩

/-! ## The outcome -/

def currentMember (ec : Ec) (entity : UInt32) : Option Json :=
  (ec.current entity syscomp).jsonGetMember "current".toList

/-- The first of the names whose system matches, behind some that are registered. -/
structure SelectsAt (systems : SystemMap) (ec : Ec) (entity : UInt32) (first : List Text)
    (name : Text) (system : EcsysRegistered) : Prop where
  listed : ∃ rest, NamesSystems ec entity (first ++ name :: rest)
  registered : systems.map[name]? = some system
  hit : Matches ec entity system
  unmatched : ∀ other ∈ first, ¬ NameMatches systems ec entity other
  known : ∀ other ∈ first, systems.map[other]?.isSome

/-- What an advance is meant to do. -/
structure AdvanceMeaning (systems : SystemMap) (ec : Ec) (entity : UInt32) (done : Advanced) :
    Prop where
  invalid : (∀ names, ¬ NamesSystems ec entity names) → done.error = some 2200
  selected : ∀ {first name system}, SelectsAt systems ec entity first name system →
    done.error = none ∧
    currentMember done.ec entity = some (.primitive (formatU first.length)) ∧
    ∃ text, done.sent = [text] ∧
      SaysNotification text name entity (system.requiredComponents.map fun component =>
        (component, done.ec.current entity component))
  unregistered : ∀ {first rest}, NamesSystems ec entity (first ++ rest) →
    (∀ other ∈ first, ¬ NameMatches systems ec entity other) →
    (∃ other ∈ first, systems.map[other]? = none) → done.error = some 2200
  unmatched : ∀ {names}, NamesSystems ec entity names →
    (∀ name ∈ names, systems.map[name]?.isSome ∧ ¬ NameMatches systems ec entity name) →
      done.error = some 2201
  silent : done.error.isSome → done.sent = []
  frame : ∀ {entity' component}, ¬ (entity = entity' ∧ syscomp = component) →
    done.ec.cell entity' component = ec.cell entity' component

theorem SelectsAt.advanceSpec {systems : SystemMap} {ec : Ec} {entity : UInt32} {first : List Text}
    {name : Text} {system : EcsysRegistered} (selects : SelectsAt systems ec entity first name system) :
    advanceSpec systems ec entity = ⟨afterCurrent ec entity first.length,
      [⟨name, entity, system.requiredComponents.map fun component =>
        (component, (afterCurrent ec entity first.length).current entity component)⟩], none⟩ := by
  obtain ⟨rest, named⟩ := selects.listed
  have found := searchSystem_found
    (fun other member => ⟨selects.known other member, selects.unmatched other member⟩)
    selects.registered selects.hit rest
  simp only [Payz.advanceSpec, (namesSystems_iff ec entity _).mpr named, found, runSystem,
    systems.keyed selects.registered, ecGetComponent_eq]

/-- What is sent for it says what the table holds, if the names can be keys. -/
theorem SelectsAt.sent {systems : SystemMap} {ec : Ec} {entity : UInt32} {first : List Text}
    {name : Text} {system : EcsysRegistered} (selects : SelectsAt systems ec entity first name system)
    (data : ec.All Json.WellFormed) :
    ∃ text, (Payz.advanceSpec systems ec entity).sent = [text] ∧
      (SaysNotification text name entity (system.requiredComponents.map fun component =>
        (component, (Payz.advanceSpec systems ec entity).ec.current entity component)) ↔
          ∀ component ∈ system.requiredComponents, Quotable component) := by
  have after : (Payz.advanceSpec systems ec entity).ec.All Json.WellFormed :=
    wellFormed_advanceSpec data systems entity
  rw [selects.advanceSpec] at after ⊢
  refine ⟨_, rfl, (saysNotification_iff ?_).trans ?_⟩
  · rw [List.forall_mem_map]
    exact fun component _ => after.current nullDatum_wellFormed entity component
  · rw [List.forall_mem_map]

/-- An advance never aborts.  It does what it is meant to do exactly if the names of the
    components that the selected system requires can be keys. -/
theorem advance_selects_iff (systems : SystemMap) {ec : Ec} (data : ec.All Json.WellFormed)
    (entity : UInt32) :
    ∃ done, ecsysAdvance systems ec entity = .ok done ∧
      (AdvanceMeaning systems ec entity done ↔
        ∀ {first name system}, SelectsAt systems ec entity first name system →
          ∀ component ∈ system.requiredComponents, Quotable component) := by
  refine ⟨advanceSpec systems ec entity, ecsysAdvance_eq systems data entity, ?_⟩
  have names_eq : ∀ {names}, NamesSystems ec entity names →
      payzGenericGetsystemsTal ec entity "systems".toList jsonToArrayOfStrings = some names :=
    fun named => (namesSystems_iff ec entity _).mpr named
  constructor
  · intro meaning first name system selects
    obtain ⟨text, sent, said⟩ := selects.sent data
    obtain ⟨-, -, text', sent', told⟩ := meaning.selected selects
    rw [sent] at sent'
    cases sent'
    exact said.mp told
  · intro quotable
    constructor
    · intro none_named
      have absent : payzGenericGetsystemsTal ec entity "systems".toList jsonToArrayOfStrings =
          none := by
        rw [Option.eq_none_iff_forall_ne_some]
        exact fun names found => none_named names ((namesSystems_iff ec entity names).mp found)
      simp only [advanceSpec, absent]
      rfl
    · intro first name system selects
      obtain ⟨text, sent, said⟩ := selects.sent data
      have member : currentMember (afterCurrent ec entity first.length) entity =
          some (.primitive (formatU first.length)) := by
        rw [currentMember, afterCurrent, current_withMember]
        exact jsonGetMember_withMember_self _ _ _
      refine ⟨by rw [selects.advanceSpec], ?_, text, sent, said.mpr (quotable selects)⟩
      rw [selects.advanceSpec]
      exact member
    · intro first rest named earlier missing
      obtain ⟨name, found⟩ := searchSystem_unregistered missing earlier rest
      simp only [advanceSpec, names_eq named, found]
      rfl
    · intro names named passed
      simp only [advanceSpec, names_eq named, searchSystem_none passed]
      rfl
    · rcases advanceSpec_cases systems ec entity with ⟨code, msg, same⟩ | ⟨_, _, _, _, _, same⟩
      · intro _
        rw [same]
        rfl
      · rw [same]
        exact fun failed => by cases failed
    · exact fun other => cell_advanceSpec systems ec entity other

/-- Entity 1 has this component and is left to these systems. -/
def leftWith (component : Text) (value : Json) (systems : List Text) : Ec :=
  ecSetComponent (ecSetComponent ecNew 1 component (some value)) 1 syscomp
    (some (.tight [("systems".toList, .tightArray (systems.map .string))]))

theorem leftWith_wellFormed (component : Text) {value : Json} (wellFormed : value.WellFormed)
    {systems : List Text} (plain : ∀ name ∈ systems, StringText name) :
    (leftWith component value systems).All Json.WellFormed := by
  have none : ecNew.All Json.WellFormed := Ec.all_ecNew _
  have one : (ecSetComponent ecNew 1 component (some value)).All Json.WellFormed := by
    refine none.set 1 component ?_
    rintro datum same
    cases same
    exact wellFormed
  intro entity component' datum found
  refine one.set 1 syscomp ?_ found
  rintro datum same
  cases same
  refine .tight (List.forall_mem_singleton.mpr (.of_plain rfl)) (List.forall_mem_singleton.mpr ?_)
  refine .tightArray ?_
  rw [List.forall_mem_map]
  exact fun name member => .string (plain name member)

/-- Two systems, the second of which requires `a`. -/
def systemsYX : SystemMap :=
  (SystemMap.empty.insert ⟨"y".toList, ["b".toList], []⟩).insert ⟨"x".toList, ["a".toList], []⟩

def entityWithA : Ec := leftWith "a".toList (.primitive (formatU 42)) ["y".toList, "x".toList]

theorem systemsYX_required {name : Text} {system : EcsysRegistered}
    (registered : systemsYX.map[name]? = some system) :
    system = ⟨"x".toList, ["a".toList], []⟩ ∨ system = ⟨"y".toList, ["b".toList], []⟩ := by
  simp only [systemsYX, SystemMap.insert, SystemMap.empty,
    Std.ExtTreeMap.getElem?_insert] at registered
  split_ifs at registered
  · cases registered
    exact .inl rfl
  · cases registered
    exact .inr rfl
  · simp at registered

theorem selects_second : SelectsAt systemsYX entityWithA 1 ["y".toList] "x".toList
    ⟨"x".toList, ["a".toList], []⟩ where
  listed := ⟨[], (namesSystems_iff _ _ _).mp rfl⟩
  registered := by simp [systemsYX, SystemMap.insert]
  hit := (systemMatches_iff _ _ _).mp (by decide +kernel)
  unmatched := by
    refine List.forall_mem_singleton.mpr ?_
    rintro ⟨system, registered, hit⟩
    rcases systemsYX_required registered with rfl | rfl
    · exact absurd (systemsYX.keyed registered) (by decide)
    · exact absurd ((systemMatches_iff _ _ _).mpr hit) (by decide +kernel)
  known := List.forall_mem_singleton.mpr (by simp [systemsYX, SystemMap.insert])

/-- The first system does not match, the second is sent what the entity has. -/
theorem advance_selects_second :
    ∃ done text, ecsysAdvance systemsYX entityWithA 1 = .ok done ∧ done.error = none ∧
      currentMember done.ec 1 = some (.primitive (formatU 1)) ∧ done.sent = [text] ∧
      SaysNotification text "x".toList 1 [("a".toList, .primitive (formatU 42))] := by
  have plain : ∀ name ∈ ["y".toList, "x".toList], StringText name :=
    List.forall_mem_cons.mpr ⟨.of_plain rfl, List.forall_mem_singleton.mpr (.of_plain rfl)⟩
  obtain ⟨done, ran, meaning⟩ := advance_selects_iff systemsYX
    (leftWith_wellFormed "a".toList (.formatU 42) plain) 1
  have meant := meaning.mpr fun selects component member => by
    rcases systemsYX_required selects.registered with rfl | rfl
    · rw [List.mem_singleton.mp member]
      exact forall_mem_of_all rfl
    · rw [List.mem_singleton.mp member]
      exact forall_mem_of_all rfl
  obtain ⟨fine, current, text, sent, told⟩ := meant.selected selects_second
  have kept : done.ec.current 1 "a".toList = .primitive (formatU 42) := by
    rw [Ec.current, meant.frame (by decide)]
    rfl
  refine ⟨done, text, ran, fine, current, sent, ?_⟩
  rw [List.map_singleton, kept] at told
  exact told

/-- A name that a promoted type has given a component. -/
def quotedComponent : Text := "lightningd:invoice:type:[\"x\"]".toList

def systemsQuoted : SystemMap := SystemMap.empty.insert ⟨"x".toList, [quotedComponent], []⟩

/-- Entity 1 has it and is left to this system. -/
def entityWithQuoted : Ec := leftWith quotedComponent (.primitive "true".toList) ["x".toList]

/-- The only system requires a component whose name holds quotes: what is sent for it does
    not say what the table holds. -/
theorem advance_spoils_quoted_component :
    ∃ done, ecsysAdvance systemsQuoted entityWithQuoted 1 = .ok done ∧ done.error = none ∧
      done.sent = [runSystemText ⟨"x".toList, 1, [(quotedComponent, .primitive "true".toList)]⟩] ∧
      ¬ AdvanceMeaning systemsQuoted entityWithQuoted 1 done := by
  have data : entityWithQuoted.All Json.WellFormed :=
    leftWith_wellFormed _ (.primitive (.inr (.inl rfl)))
      (List.forall_mem_singleton.mpr (.of_plain rfl))
  have selects : SelectsAt systemsQuoted entityWithQuoted 1 [] "x".toList
      ⟨"x".toList, [quotedComponent], []⟩ :=
    ⟨⟨[], (namesSystems_iff _ _ _).mp rfl⟩, by simp [systemsQuoted, SystemMap.insert],
      (systemMatches_iff _ _ _).mp (by decide +kernel), by simp, by simp⟩
  obtain ⟨text, sent, said⟩ := selects.sent data
  refine ⟨_, ecsysAdvance_eq _ data 1, by rw [selects.advanceSpec], ?_, fun meaning => ?_⟩
  · rw [selects.advanceSpec]
    rfl
  · obtain ⟨-, -, text', sent', told⟩ := meaning.selected selects
    rw [sent] at sent'
    cases sent'
    have quotable := said.mp told quotedComponent List.mem_cons_self
    exact (quotable '"' (by decide)).1 rfl

end Payz
