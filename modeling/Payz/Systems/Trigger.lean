import Payz.Json.Front
import Payz.Systems.Effects

/-! # Triggering the built-in systems

What `ecs_system_notify` makes of the notifications that `run_system` writes, once they are
parsed: those of a built-in system reach its function with the components it requires, all
others pass.
-/

namespace Payz

/-- The object with the entity and its components. -/
def Notification.entityObject (n : Notification) : Json :=
  .tight (("entity".toList, .primitive (formatU n.entity.toNat)) :: n.components)

theorem escapeChar_cases (c : Char) : escapeChar c = [c] ∨ '\\' ∈ escapeChar c := by
  unfold escapeChar
  split_ifs <;> simp

theorem jsonEscape_eq_self_of_plain {t : Text} (plain : '\\' ∉ jsonEscape t) : jsonEscape t = t := by
  induction t with
  | nil => rfl
  | cons c t ih =>
      simp only [jsonEscape, List.flatMap_cons, List.mem_append, not_or] at plain ih ⊢
      rw [ih plain.2, (escapeChar_cases c).resolve_right plain.1]
      rfl

theorem EcsSystemFunction.name_plain (func : EcsSystemFunction) :
    '\\' ∉ func.name ∧ jsonEscapeNeeded func.name = false := by
  cases func <;> decide

theorem EcsSystemFunction.name_injective {func other : EcsSystemFunction}
    (same : func.name = other.name) : func = other := by
  have distinct : ∀ f ∈ builtins, ∀ g ∈ builtins, f.name = g.name → f = g := by decide
  exact distinct func (mem_builtins func) other (mem_builtins other) same

theorem EcsSystemFunction.required_ne_entity (func : EcsSystemFunction) :
    ∀ component ∈ func.registered.requiredComponents, component ≠ "entity".toList := by
  cases func <;> decide

theorem jsonGetMember_system (n : Notification) :
    n.payload.jsonGetMember "system".toList = some (.string (jsonEscape n.system)) := rfl

/-- Whatever the names make of the rest, the system is the one that was meant. -/
theorem Notification.delivered_system {n : Notification} {payload : Json}
    (delivered : n.delivered = some payload) :
    payload.jsonGetMember "system".toList = some (.string (jsonEscape n.system)) := by
  have key : StringText "system".toList := .of_plain rfl
  obtain ⟨rest, front⟩ : ∃ rest, runSystemText n = '{' :: '"' :: ("system".toList ++
      '"' :: ':' :: '"' :: (jsonEscape n.system ++ '"' :: rest)) := by
    obtain ⟨entity, text⟩ : ∃ entity, n.payload.jsonTokFull = '{' ::
        ((tightMember ("system".toList, .string (jsonEscape n.system)) ++ ',' :: entity) ++
          ['}']) := ⟨_, rfl⟩
    refine ⟨',' :: (entity ++ ['}']), ?_⟩
    rw [runSystemText_eq, text, tightMember]
    simp [Json.jsonTokFull]
  rw [Notification.delivered, front] at delivered
  obtain ⟨text, members, rfl⟩ := jsonParseSimple_front key (stringText_jsonEscape n.system) delivered
  rfl

theorem jsonGetMember_entity (n : Notification) :
    n.payload.jsonGetMember "entity".toList = some n.entityObject := rfl

theorem find?_map_member (value : Text → Json) {names : List Text} {component : Text}
    (member : component ∈ names) :
    (names.map fun name => (name, value name)).find? (fun m => m.1 == component) =
      some (component, value component) := by
  induction names with
  | nil => cases member
  | cons name names ih =>
      by_cases same : name = component
      · simp [same]
      · have later := (List.mem_cons.mp member).resolve_left (Ne.symm same)
        simpa [same] using ih later

/-- A required component is found with the value it had when the notification was
    written. -/
theorem jsonGetMember_runSystem (ec : Ec) (entity : UInt32) {system : EcsysRegistered}
    {component : Text} (differ : component ≠ "entity".toList)
    (member : component ∈ system.requiredComponents) :
    (runSystem ec entity system).entityObject.jsonGetMember component =
      some (ec.current entity component) := by
  simp only [Notification.entityObject, Json.tight, Json.jsonGetMember, runSystem, ecGetComponent_eq]
  rw [List.find?_cons_of_neg (by simpa using differ.symm),
    find?_map_member (ec.current entity) member]
  rfl

/-- The function of a built-in system is called for its notification. -/
theorem ecsSystemLookup_builtin {ecs : Registry} (builtins : ecs.HasBuiltins) (ec : Ec)
    (entity : UInt32) (func : EcsSystemFunction) :
    ecsSystemLookup ecs (runSystem ec entity func.registered).payload =
      some (func, entity, (runSystem ec entity func.registered).entityObject) := by
  have name : jsonEscape (runSystem ec entity func.registered).system = func.name :=
    jsonEscape_eq_self func.name_plain.2
  have id : ((runSystem ec entity func.registered).entityObject.jsonGetMember
      "entity".toList).bind Json.jsonToU32 = some entity := Json.jsonToU32_formatU entity
  have given : (func.registered.requiredComponents.all fun component =>
      ((runSystem ec entity func.registered).entityObject.jsonGetMember component).isSome) =
        true := by
    rw [List.all_eq_true]
    intro component member
    rw [jsonGetMember_runSystem ec entity (func.required_ne_entity component member) member]
    rfl
  simp only [ecsSystemLookup, jsonGetMember_system, Json.jsonStrdup, name, builtins.funcs,
    jsonGetMember_entity, id, given, if_true]

/-- No function is called for the notification of another system. -/
theorem ecsSystemLookup_other {ecs : Registry} (builtins : ecs.HasBuiltins) {n : Notification}
    (other : ∀ func : EcsSystemFunction, n.system ≠ func.name) {payload : Json}
    (named : payload.jsonGetMember "system".toList = some (.string (jsonEscape n.system))) :
    ecsSystemLookup ecs payload = none := by
  have absent : ecs.systemFuncs[jsonEscape n.system]? = none := by
    refine Std.ExtTreeMap.getElem?_eq_none fun present => ?_
    obtain ⟨func, same⟩ := builtins.onlyFuncs _ present
    refine other func ?_
    rw [← same, jsonEscape_eq_self_of_plain]
    rw [same]
    exact func.name_plain.1
  simp only [ecsSystemLookup, named, Json.jsonStrdup, absent]

/-- What `ecs_system_notify` does with a notification written for an earlier table. -/
theorem ecsSystemNotify_builtin {ecs : Registry} (builtins : ecs.HasBuiltins) (nonce : Nonce)
    (blocks : Nat) {ec earlier : Ec} (data : ec.All Json.WellFormed)
    (dataEarlier : earlier.All Json.WellFormed) (entity : UInt32) (func : EcsSystemFunction) :
    ecsSystemNotify ecs (some (formatU blocks)) nonce ec
        (runSystem earlier entity func.registered).payload =
      .ok ((func.effect nonce blocks (earlier.current entity)).outcome ecs.systems ec entity) := by
  rw [ecsSystemNotify, ecsSystemLookup_builtin builtins]
  refine func.call_eq ecs.systems nonce blocks data entity ?_ ?_
  · intro component member
    exact jsonGetMember_runSystem earlier entity (func.required_ne_entity component member) member
  · exact fun component _ => dataEarlier.current nullDatum_wellFormed entity component

/-! ## Deliveries -/

/-- What comes of a notification that lightningd hands back. -/
def ecsSystemDeliver (ecs : Registry) (defaultMaxdelay : Option Text) (nonce : Nonce) (ec : Ec)
    (n : Notification) : Except Fault Outcome :=
  match n.delivered with
  | none => .ok (ecsDone ec)
  | some payload => ecsSystemNotify ecs defaultMaxdelay nonce ec payload

/-- The function that the delivery of a notification calls. -/
def ecsSystemCalled (ecs : Registry) (n : Notification) :
    Option (EcsSystemFunction × UInt32 × Json) :=
  n.delivered.bind (ecsSystemLookup ecs)

theorem EcsSystemFunction.required_plain (func : EcsSystemFunction) :
    ∀ component ∈ func.registered.requiredComponents, StringText component := by
  have plain : ∀ func : EcsSystemFunction, ∀ component ∈ func.registered.requiredComponents,
      (component.all fun c => c ≠ '"' ∧ c ≠ '\\' ∧ c ≠ '\x00') = true := by
    intro func
    cases func <;> decide
  exact fun component member => .of_plain (plain func component member)

/-- The components of a built-in system have names that can be keys. -/
theorem delivered_builtin {earlier : Ec} (data : earlier.All Json.WellFormed) (entity : UInt32)
    (func : EcsSystemFunction) :
    (runSystem earlier entity func.registered).delivered =
      some (runSystem earlier entity func.registered).payload := by
  refine Notification.delivered_eq ?_ ?_
  · rw [runSystem, List.forall_mem_map]
    exact func.required_plain
  · rw [runSystem, List.forall_mem_map]
    intro component _
    rw [ecGetComponent_eq]
    exact data.current nullDatum_wellFormed entity component

theorem ecsSystemCalled_builtin {ecs : Registry} (builtins : ecs.HasBuiltins) {earlier : Ec}
    (data : earlier.All Json.WellFormed) (entity : UInt32) (func : EcsSystemFunction) :
    ecsSystemCalled ecs (runSystem earlier entity func.registered) =
      some (func, entity, (runSystem earlier entity func.registered).entityObject) := by
  rw [ecsSystemCalled, delivered_builtin data, Option.bind_some, ecsSystemLookup_builtin builtins]

theorem ecsSystemCalled_other {ecs : Registry} (builtins : ecs.HasBuiltins) {n : Notification}
    (other : ∀ func : EcsSystemFunction, n.system ≠ func.name) : ecsSystemCalled ecs n = none := by
  rw [ecsSystemCalled, Option.bind_eq_none_iff]
  exact fun payload delivered =>
    ecsSystemLookup_other builtins other (Notification.delivered_system delivered)

theorem ecsSystemDeliver_builtin {ecs : Registry} (builtins : ecs.HasBuiltins) (nonce : Nonce)
    (blocks : Nat) {ec earlier : Ec} (data : ec.All Json.WellFormed)
    (dataEarlier : earlier.All Json.WellFormed) (entity : UInt32) (func : EcsSystemFunction) :
    ecsSystemDeliver ecs (some (formatU blocks)) nonce ec
        (runSystem earlier entity func.registered) =
      .ok ((func.effect nonce blocks (earlier.current entity)).outcome ecs.systems ec entity) := by
  simp only [ecsSystemDeliver, delivered_builtin dataEarlier,
    ecsSystemNotify_builtin builtins nonce blocks data dataEarlier]

theorem ecsSystemDeliver_other {ecs : Registry} (builtins : ecs.HasBuiltins) (nonce : Nonce)
    (defaultMaxdelay : Option Text) (ec : Ec) {n : Notification}
    (other : ∀ func : EcsSystemFunction, n.system ≠ func.name) :
    ecsSystemDeliver ecs defaultMaxdelay nonce ec n = .ok (ecsDone ec) := by
  unfold ecsSystemDeliver
  cases delivered : n.delivered with
  | none => rfl
  | some payload =>
      simp only [ecsSystemNotify,
        ecsSystemLookup_other builtins other (Notification.delivered_system delivered)]

end Payz
