import Payz.Plugin.Printable

/-! # Notifications that can be sent

`run_system` writes the names of the required components as keys, as they are.  What comes
back is what was meant as long as no system asks for an attached component whose name
cannot be a key.  `P` says which names can.
-/

namespace Payz

/-- A name that can be a key, or that no system asks for. -/
def SystemMap.Sendable (P : Text → Prop) (systems : SystemMap) (component : Text) : Prop :=
  P component ∨ ∀ (name : Text) (system : EcsysRegistered),
    systems.map[name]? = some system → component ∉ system.requiredComponents

/-- Neither a new system nor a promoted type nor a `decode` result makes a system ask for an
    attached component whose name cannot be a key. -/
def Event.Sendable (P : Text → Prop) (p : Plugin) : Event → Prop
  | .newsystem params => ∀ system required disallowed,
      payecsNewsystemArgs params = .ok (system, required, disallowed) →
        ∀ component ∈ required, P component ∨ ∀ entity, p.ec.cell entity component = none
  | .notify n _ => n.system = EcsSystemFunction.promoteInvoiceType.name →
      ∀ m ∈ n.components, m.1 = "lightningd:invoice:type".toList →
        p.regs.ecs.systems.Sendable P ("lightningd:invoice:type:".toList ++ m.2.jsonStrdup)
  | .decoded _ (.result _ members) => ∀ key value, Ec.lastValue members key = some value →
      value.jsonTokIsNull = false → p.regs.ecs.systems.Sendable P (invoicePrefix ++ key)
  | _ => True

/-! ## What a step keeps -/

theorem Event.Sendable.brings {P : Text → Prop} {p : Plugin} {event : Event}
    (sendable : event.Sendable P p) : event.Brings (p.regs.ecs.systems.Sendable P) where
  promoted := by
    rintro n nonce rfl system m member type
    exact sendable system m member type
  decoded := by
    rintro request text members rfl key value last attached
    exact sendable key value last attached

theorem Plugin.Ok.step_regs {blocks : Nat} {p p' : Plugin} {label : Label} (ok : p.Ok blocks)
    (step : p.Step label p') : p'.regs = p.regs ∨ ∃ params, label.event = .newsystem params := by
  obtain ⟨event, output⟩ := label
  rcases ok.step_cases step with ⟨q, entity, effect, acts, took⟩ | ⟨-, settles⟩
  · cases took
    exact .inl acts.same.1
  · cases settles with
    | wrote | refused | passed => exact .inl rfl
    | @registered params => exact .inr ⟨params, rfl⟩

/-- Registering a system does not change what can be sent, as long as it asks for no
    attached component whose name cannot be. -/
theorem sendable_newsystem {P : Text → Prop} {blocks : Nat} {p p' : Plugin} {params : Json}
    {output : Output}
    (ok : p.Ok blocks) (step : p.Step ⟨.newsystem params, output⟩ p')
    (sendable : (Event.newsystem params).Sendable P p)
    (names : p.ec.Named (p.regs.ecs.systems.Sendable P)) :
    p'.ec.Named (p'.regs.ecs.systems.Sendable P) := by
  obtain ⟨done, returned, same⟩ := eq_of_map_eq_ok step.2
  cases same
  rcases payecsNewsystem_cases ok.agree returned with
    ⟨unchanged, -⟩ | ⟨system, required, disallowed, args, -, -, regs⟩
  · rw [unchanged]
    exact names
  · intro entity component attached
    rcases names entity component attached with text | unasked
    · exact .inl text
    · by_cases asked : component ∈ required
      · rcases sendable system required disallowed args component asked with text | absent
        · exact .inl text
        · rw [absent entity] at attached
          cases attached
      · refine .inr fun name registered found => ?_
        rw [regs] at found
        simp only [SystemMap.insert, Std.ExtTreeMap.getElem?_insert] at found
        split_ifs at found with own
        · cases found
          exact asked
        · exact unasked name registered found

theorem sendable_step {P : Text → Prop}
    (checked : ∀ {component : Text}, ComponentName component → P component) {blocks : Nat}
    {p p' : Plugin} {label : Label} (ok : p.Ok blocks) (step : p.Step label p')
    (sendable : label.event.Sendable P p)
    (names : p.ec.Named (p.regs.ecs.systems.Sendable P)) :
    p'.ec.Named (p'.regs.ecs.systems.Sendable P) := by
  rcases ok.step_regs step with same | ⟨params, isNew⟩
  · rw [same]
    exact Plugin.named_step (fun name => .inl (checked name)) ok names step sendable.brings
  · obtain ⟨event, output⟩ := label
    cases isNew
    exact sendable_newsystem ok step sendable names

theorem Notification.Current.components_eq {systems : SystemMap} {ec : Ec} {n : Notification}
    (current : n.Current systems ec) : ∃ system, systems.map[n.system]? = some system ∧
      Matches ec n.entity system ∧ n.components = system.requiredComponents.map fun component =>
        (component, ec.current n.entity component) := by
  obtain ⟨system, registered, hit, same⟩ := current
  refine ⟨system, registered, hit, ?_⟩
  rw [same, runSystem]
  simp only [ecGetComponent_eq]

theorem Notification.Current.names {P : Text → Prop} {systems : SystemMap} {ec : Ec}
    {n : Notification} (current : n.Current systems ec) (names : ec.Named (systems.Sendable P)) :
    ∀ m ∈ n.components, P m.1 := by
  obtain ⟨system, registered, hit, components⟩ := current.components_eq
  rw [components, List.forall_mem_map]
  intro component member
  rcases names n.entity component (hit.required component member) with text | unasked
  · exact text
  · exact absurd member (unasked n.system system registered)

theorem Notification.Current.values {systems : SystemMap} {ec : Ec} {n : Notification}
    (current : n.Current systems ec) (data : ec.All Json.WellFormed) :
    ∀ m ∈ n.components, m.2.WellFormed := by
  obtain ⟨system, -, -, components⟩ := current.components_eq
  rw [components, List.forall_mem_map]
  exact fun component _ => data.current nullDatum_wellFormed n.entity component

/-! ## A system that is registered by another plugin -/

/-- A system `x` that requires one component. -/
def requiringParams (raw : Text) : Json :=
  .tight [("system".toList, .string "x".toList), ("required".toList, .string raw)]

/-- Entity 1 has this component and is left to these systems. -/
def leftTo (component : Text) (value : Json) (systems : List Text) : Json :=
  .tight [("writes".toList, .tight [("entity".toList, .primitive "1".toList),
    (component, value), (syscomp, .tight [("systems".toList, stringArray systems)])])]

theorem leftTo_wellFormed {component : Text} (text : StringText component) {value : Json}
    (wellFormed : value.WellFormed) (systems : List Text) :
    (leftTo component value systems).WellFormed := by
  refine .tight (List.forall_mem_singleton.mpr (.of_plain rfl)) (List.forall_mem_singleton.mpr ?_)
  refine .tight ?_ ?_
  · simp only [List.forall_mem_cons]
    exact ⟨.of_plain rfl, text, .of_plain rfl, by simp⟩
  · simp only [List.forall_mem_cons]
    have one : (Json.primitive "1".toList).WellFormed := .formatU 1
    exact ⟨one, wellFormed, .tight (List.forall_mem_singleton.mpr (.of_plain rfl))
      (List.forall_mem_singleton.mpr (stringArray_wellFormed systems)), by simp⟩

/-- The notification of `x`. -/
def callsX (component : Text) (value : Json) : Notification := ⟨"x".toList, 1, [(component, value)]⟩

theorem requiringParams_wellFormed {raw : Text} (text : StringText raw) :
    (requiringParams raw).WellFormed := by
  refine .tight ?_ ?_
  · simp only [List.forall_mem_cons]
    exact ⟨.of_plain rfl, .of_plain rfl, by simp⟩
  · simp only [List.forall_mem_cons]
    exact ⟨.string (.of_plain rfl), .string text, by simp⟩

/-! ## A promoted type that splits the key -/

def splittingType : Json := .tightArray [.string ":1,".toList]

theorem splittingType_wellFormed : splittingType.WellFormed :=
  .tightArray (List.forall_mem_singleton.mpr (.string (.of_plain rfl)))

/-- The component that `promote_invoice_type` attaches for it. -/
def splitName : Text := "lightningd:invoice:type:[\":1,\"]".toList

/-- `x` asks for that component, and entity 1 is left to `x` and to the system that attaches it. -/
def splitRegister : Event := .newsystem (requiringParams (jsonEscape splitName))

def splitWrite : Event := .setcomponents (leftTo promotedComp splittingType
  ["x".toList, EcsSystemFunction.promoteInvoiceType.name])

def promotesSplit : Notification :=
  ⟨EcsSystemFunction.promoteInvoiceType.name, 1, [(promotedComp, splittingType)]⟩

/-- The components of entity 1 as they are read off the notification of `x`. -/
def splitObject : Json := .tight [("entity".toList, .primitive "1".toList),
  ("lightningd:invoice:type:[".toList, .primitive "1".toList), ("]".toList, trueDatum)]

def splitPayload : Json :=
  .tight [("system".toList, .string "x".toList), ("entity".toList, splitObject)]

theorem splitObject_wellFormed : splitObject.WellFormed := by
  have one : (Json.primitive "1".toList).WellFormed := .formatU 1
  refine .tight ?_ ?_
  · simp only [List.forall_mem_cons]
    exact ⟨.of_plain rfl, .of_plain rfl, .of_plain rfl, by simp⟩
  · simp only [List.forall_mem_cons]
    exact ⟨one, one, trueDatum_wellFormed, by simp⟩

theorem splitPayload_wellFormed : splitPayload.WellFormed := by
  refine .tight ?_ ?_
  · simp only [List.forall_mem_cons]
    exact ⟨.of_plain rfl, .of_plain rfl, by simp⟩
  · simp only [List.forall_mem_cons]
    exact ⟨.string (.of_plain rfl), splitObject_wellFormed, by simp⟩

/-- Its quotes end the key early. -/
theorem callsX_split : (callsX splitName trueDatum).delivered = some splitPayload := by
  decide +kernel

end Payz
