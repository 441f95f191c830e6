import Payz.Flow.Turns
import Payz.Plugin.Lock

/-! # The systems an entity is given

`payecs_setdefaultsystems` writes a list of names, and every advance reads it again.  What
is written can be read unless a name holds a character that is written as `\u`; the
names stay registered, so an advance finds all of them until the list is rewritten by
a client or a system gives the entity up.
-/

namespace Payz

open Runs

theorem writable_around {prepend append : List Text}
    (writable : ∀ name ∈ prepend ++ append, Writable name) :
    ∀ name ∈ prepend ++ defaultSystems ++ append, Writable name := by
  intro name member
  rw [List.append_assoc, List.mem_append, List.mem_append] at member
  rcases member with first | default | last
  · exact writable name (List.mem_append_left _ first)
  · exact writable_defaultSystems name default
  · exact writable name (List.mem_append_right _ last)

theorem namesSystems_withSystems (ec : Ec) (entity : UInt32) {names : List Text}
    (writable : ∀ name ∈ names, Writable name) :
    NamesSystems (withSystems ec entity names) entity names := by
  rw [namesSystems_iff_member, withSystems, current_withMember, jsonGetMember_withMember_self]
  exact jsonToArrayOfStrings_stringArray writable

/-! ## Later advances -/

/-- The systems of the entity can be read, and all of them are registered. -/
def Plugin.Equipped (entity : UInt32) (p : Plugin) : Prop :=
  ∃ names, NamesSystems p.ec entity names ∧ ∀ name ∈ names, name ∈ p.regs.ecs.systems.map

/-- A step in which no client rewrites the systems of the entity by hand, and no system
    gives the entity up. -/
def KeepsSystems (entity : UInt32) (p : Plugin) (label : Label) (p' : Plugin) : Prop :=
  match label.event with
  | .setcomponents _ => p'.ec.cell entity syscomp = p.ec.cell entity syscomp
  | .setdefaultsystems params => ∀ prepend append,
      payecsSetdefaultsystemsArgs params = .ok (entity, prepend, append) →
        ∀ name ∈ prepend ++ append, Writable name
  | .notify _ _ | .decoded _ _ => p'.ec.cell entity syscomp ≠ none
  | .newsystem _ | .advance _ => True

/-- Steps that keep the systems of the entity. -/
def KeepingStep (entity : UInt32) (p : Plugin) (label : Label) (p' : Plugin) : Prop :=
  p.Step label p' ∧ KeepsSystems entity p label p'

theorem SystemMap.Extends.mem {systems systems' : SystemMap} (more : systems.Extends systems')
    {name : Text} (member : name ∈ systems.map) : name ∈ systems'.map := by
  rw [Std.ExtTreeMap.mem_iff_isSome_getElem?] at member ⊢
  obtain ⟨system, found⟩ := Option.isSome_iff_exists.mp member
  simp [more found]

theorem RegistriesAgree.mem_default {regs : Registries} (agree : RegistriesAgree regs) {name : Text}
    (member : name ∈ defaultSystems) : name ∈ regs.ecs.systems.map :=
  (agree.names name).mpr (.inl member)

theorem mem_around {regs : Registries} (agree : RegistriesAgree regs) {prepend append : List Text}
    (known : ∀ name ∈ prepend ++ append, name ∈ regs.ecs.systems.map) :
    ∀ name ∈ prepend ++ defaultSystems ++ append, name ∈ regs.ecs.systems.map := by
  intro name member
  rw [List.append_assoc, List.mem_append, List.mem_append] at member
  rcases member with first | default | last
  · exact known name (List.mem_append_left _ first)
  · exact agree.mem_default default
  · exact known name (List.mem_append_right _ last)

theorem payecsSetdefaultsystems_iff {systems : SystemMap} {ec : Ec} (data : ec.All Json.WellFormed)
    {params : Json} {entity : UInt32} {prepend append : List Text}
    (args : payecsSetdefaultsystemsArgs params = .ok (entity, prepend, append)) :
    ((∃ name ∈ prepend ++ append, name ∉ systems.map) ∧ ∃ code message,
      payecsSetdefaultsystems systems ec params = .ok (ec, .fail code message)) ∨
    ((∀ name ∈ prepend ++ append, name ∈ systems.map) ∧
      payecsSetdefaultsystems systems ec params =
        .ok (withSystems ec entity (prepend ++ defaultSystems ++ append), .success [])) := by
  rw [payecsSetdefaultsystems_eq systems data args]
  cases found : (prepend ++ append).find? fun system => system ∉ systems.map with
  | some system =>
      have unknown : system ∉ systems.map := by simpa using List.find?_some found
      exact .inl ⟨⟨system, List.mem_of_find?_eq_some found, unknown⟩, _, _, rfl⟩
  | none =>
      refine .inr ⟨fun name member => ?_, rfl⟩
      simpa using List.find?_eq_none.mp found name member

namespace Plugin

theorem Equipped.of_member {entity : UInt32} {p p' : Plugin} (equipped : p.Equipped entity)
    (same : systemsMember p'.ec entity = systemsMember p.ec entity)
    (more : ∀ name, name ∈ p.regs.ecs.systems.map → name ∈ p'.regs.ecs.systems.map) :
    p'.Equipped entity := by
  obtain ⟨names, named, known⟩ := equipped
  exact ⟨names, named.of_member same, fun name member => more name (known name member)⟩

/-- A call on any entity keeps the systems in order, if the names can be written. -/
theorem Equipped.setdefaultsystems {blocks : Nat} {entity : UInt32} {p p' : Plugin}
    {params : Json} {output : Output} (equipped : p.Equipped entity) (ok : p.Ok blocks)
    (step : p.Step ⟨.setdefaultsystems params, output⟩ p')
    (keeps : KeepsSystems entity p ⟨.setdefaultsystems params, output⟩ p') :
    p'.Equipped entity := by
  obtain ⟨done, returned, same⟩ := eq_of_map_eq_ok step.2
  cases same
  cases args : payecsSetdefaultsystemsArgs params with
  | error fail =>
      simp only [payecsSetdefaultsystems, args, Except.ok.injEq] at returned
      subst returned
      exact equipped
  | ok call =>
      obtain ⟨other, prepend, append⟩ := call
      rcases payecsSetdefaultsystems_iff ok.data args with ⟨-, code, message, failed⟩ | ⟨known, wrote⟩
      · rw [failed] at returned
        cases returned
        exact equipped
      · rw [wrote] at returned
        cases returned
        by_cases mine : other = entity
        · subst mine
          exact ⟨_, namesSystems_withSystems p.ec other (writable_around (keeps prepend append args)),
            mem_around ok.agree known⟩
        · obtain ⟨-, -, frame⟩ := withSystems_keeps ok.consistent ok.data other
            (prepend ++ defaultSystems ++ append)
          exact equipped.of_member (systemsMember_congr (frame fun both => mine both.1)) fun _ => id

theorem Equipped.step {blocks : Nat} {entity : UInt32} {p p' : Plugin} {label : Label}
    (equipped : p.Equipped entity) (ok : p.Ok blocks) (step : KeepingStep entity p label p') :
    p'.Equipped entity := by
  obtain ⟨event, output⟩ := label
  obtain ⟨takes, keeps⟩ := step
  rcases ok.step_cases takes with ⟨q, worked, effect, acts, took⟩ | ⟨-, settles⟩
  · cases took
    have registered : ∀ name, name ∈ p.regs.ecs.systems.map → name ∈ q.regs.ecs.systems.map := by
      rw [acts.same.1]
      exact fun _ => id
    by_cases mine : worked = entity
    · subst mine
      have goes : effect.ending ≠ .done := by
        intro ends
        have detached := acts.sound.detached p.regs.ecs.systems p.ec worked ends
        cases acts with
        | advance => cases ends
        | notify => exact keeps detached
        | decoded => exact keeps detached
      exact equipped.of_member (acts.sound.systemsMember_outcome _ _ _ goes) registered
    · exact equipped.of_member
        (systemsMember_congr (effect.cell_outcome_other _ _ _ mine syscomp)) registered
  · cases settles with
    | @wrote event ec write consistent data frame =>
        cases event with
        | setcomponents params =>
            exact equipped.of_member (systemsMember_congr keeps) fun _ => id
        | setdefaultsystems params => exact equipped.setdefaultsystems ok takes keeps
        | newsystem | advance | notify | decoded => cases write
    | registered agree more => exact equipped.of_member rfl fun _ => more.mem
    | refused | passed => exact equipped

theorem Equipped.run {blocks : Nat} {entity : UInt32} {p p' : Plugin} {labels : List Label}
    (equipped : p.Equipped entity) (ok : p.Ok blocks)
    (run : Run (KeepingStep entity) p labels p') : p'.Ok blocks ∧ p'.Equipped entity := by
  have one : ∀ p label p', True → Plugin.Ok blocks p ∧ p.Equipped entity →
      KeepingStep entity p label p' → Plugin.Ok blocks p' ∧ p'.Equipped entity :=
    fun _ _ _ _ both step => ⟨both.1.step step.1, both.2.step both.1 step⟩
  exact run.keeps one (fun _ _ => trivial) ⟨ok, equipped⟩

theorem searchSystem_registered {systems : SystemMap} {names : List Text}
    (known : ∀ name ∈ names, name ∈ systems.map) (ec : Ec) (entity : UInt32) (i : Nat)
    (name : Text) : searchSystem systems ec entity i names ≠ .unregistered name := by
  induction names generalizing i with
  | nil => exact fun same => by cases same
  | cons other names ih =>
      rw [List.forall_mem_cons] at known
      obtain ⟨system, found⟩ := Option.isSome_iff_exists.mp
        (Std.ExtTreeMap.mem_iff_isSome_getElem?.mp known.1)
      simp only [searchSystem, found]
      split_ifs
      · exact fun same => by cases same
      · exact ih known.2 (i + 1)

/-- The advance of such an entity selects a system or has none left to select. -/
theorem Equipped.advance {blocks : Nat} {entity : UInt32} {p : Plugin} (ok : p.Ok blocks)
    (equipped : p.Equipped entity) {params : Json} (args : payecsAdvanceArgs params = .ok entity) :
    ∃ done reply, payecsAdvance p.regs.ecs.systems p.ec params = .ok (done, reply) ∧
      ∀ message, reply ≠ .fail 2200 message := by
  obtain ⟨names, named, known⟩ := equipped
  have read := (namesSystems_iff p.ec entity names).mpr named
  simp only [payecsAdvance, args, ecsysAdvance_eq p.regs.ecs.systems ok.data, advanceSpec, read]
  cases search : searchSystem p.regs.ecs.systems p.ec entity 0 names with
  | found current system => exact ⟨_, _, rfl, fun message same => by cases same⟩
  | none =>
      simp only [errorMessage_afterError]
      exact ⟨_, _, rfl, fun message same => by cases same⟩
  | unregistered name => exact absurd search (searchSystem_registered known p.ec entity 0 name)

end Plugin

/-- What a call that succeeds has done. -/
structure Equips (p : Plugin) (ec' : Ec) (entity : UInt32) (prepend append : List Text) : Prop where
  others : ((ec'.current entity syscomp).members.filter fun m => m.1 ≠ "systems".toList) =
    (p.ec.current entity syscomp).members.filter fun m => m.1 ≠ "systems".toList
  frame : ∀ {entity' component}, ¬ (entity = entity' ∧ syscomp = component) →
    ec'.cell entity' component = p.ec.cell entity' component
  reads : (∀ name ∈ prepend ++ append, Writable name) →
    (systemsMember ec' entity).bind jsonToArrayOfStrings =
      some (prepend ++ defaultSystems ++ append)
  advances : (∀ name ∈ prepend ++ append, Writable name) → ∀ {labels q params},
    Run (KeepingStep entity) { p with ec := ec' } labels q →
    payecsAdvanceArgs params = .ok entity →
      ∃ done reply, payecsAdvance q.regs.ecs.systems q.ec params = .ok (done, reply) ∧
        ∀ message, reply ≠ .fail payEcsInvalidSystemsComponent message

theorem equips_withSystems {blocks : Nat} {p : Plugin} (ok : p.Ok blocks) (entity : UInt32)
    {prepend append : List Text}
    (known : ∀ name ∈ prepend ++ append, name ∈ p.regs.ecs.systems.map) :
    Equips p (withSystems p.ec entity (prepend ++ defaultSystems ++ append)) entity prepend
      append := by
  obtain ⟨consistent, data, frame⟩ := withSystems_keeps ok.consistent ok.data entity
    (prepend ++ defaultSystems ++ append)
  have after : Plugin.Ok blocks { p with
      ec := withSystems p.ec entity (prepend ++ defaultSystems ++ append) } :=
    ⟨ok.agree, consistent, data, ok.maxdelay, ok.raised⟩
  refine ⟨?_, frame, fun writable => ?_, ?_⟩
  · rw [withSystems, current_withMember]
    exact others_withMember _ _ _
  · exact namesSystems_iff_member.mp
      (namesSystems_withSystems p.ec entity (writable_around writable))
  · intro writable labels q params run args
    have equipped : Plugin.Equipped entity { p with
        ec := withSystems p.ec entity (prepend ++ defaultSystems ++ append) } :=
      ⟨_, namesSystems_withSystems p.ec entity (writable_around writable),
        mem_around ok.agree known⟩
    obtain ⟨okThen, still⟩ := equipped.run after run
    exact still.advance okThen args

/-- A call fails, and changes nothing, exactly if some name is not registered.  Otherwise it
    writes what every later advance reads. -/
theorem setdefaultsystems_equips {blocks : Nat} {p : Plugin} (ok : p.Ok blocks) {params : Json}
    {entity : UInt32} {prepend append : List Text}
    (args : payecsSetdefaultsystemsArgs params = .ok (entity, prepend, append)) :
    ∃ ec' reply, payecsSetdefaultsystems p.regs.ecs.systems p.ec params = .ok (ec', reply) ∧
      ((∃ code message, reply = .fail code message) ↔
        ∃ name ∈ prepend ++ append, name ∉ p.regs.ecs.systems.map) ∧
      ((∃ code message, reply = .fail code message) → ec' = p.ec) ∧
      ((∀ code message, reply ≠ .fail code message) → Equips p ec' entity prepend append) := by
  rcases payecsSetdefaultsystems_iff ok.data args with
    ⟨unknown, code, message, failed⟩ | ⟨known, wrote⟩
  · refine ⟨_, _, failed, ⟨fun _ => unknown, fun _ => ⟨code, message, rfl⟩⟩, fun _ => rfl, ?_⟩
    exact fun succeeded => absurd rfl (succeeded code message)
  · refine ⟨_, _, wrote, ⟨?_, ?_⟩, ?_, fun _ => equips_withSystems ok entity known⟩
    · rintro ⟨code, message, same⟩
      cases same
    · rintro ⟨name, member, unknown⟩
      exact absurd (known name member) unknown
    · rintro ⟨code, message, same⟩
      cases same

/-- Give entity 1 one built-in system before the default systems and one behind them. -/
def aroundParams : Json :=
  .tight [("entity".toList, .primitive (formatU 1)),
    ("prepend".toList, stringArray [EcsSystemFunction.promoteInvoiceType.name]),
    ("append".toList, stringArray [EcsSystemFunction.generateNonce.name])]

/-- Right after startup an entity gets the systems, and an advance finds each of them. -/
theorem setdefaultsystems_equips_around :
    ∃ ec' reply, payecsSetdefaultsystems builtinRegistry.systems ecNew aroundParams =
        .ok (ec', reply) ∧ (∀ code message, reply ≠ .fail code message) ∧
      (systemsMember ec' 1).bind jsonToArrayOfStrings =
        some ([EcsSystemFunction.promoteInvoiceType.name] ++ defaultSystems ++
          [EcsSystemFunction.generateNonce.name]) ∧
      ∃ done reply, payecsAdvance builtinRegistry.systems ec' (entityParams 1) = .ok (done, reply) ∧
        ∀ message, reply ≠ .fail 2200 message := by
  have args : payecsSetdefaultsystemsArgs aroundParams =
      .ok (1, [EcsSystemFunction.promoteInvoiceType.name],
        [EcsSystemFunction.generateNonce.name]) := by decide +kernel
  have known : ([EcsSystemFunction.promoteInvoiceType.name] ++
      [EcsSystemFunction.generateNonce.name]).all
        (fun name => name ∈ builtinRegistry.systems.map) = true := by decide +kernel
  have writable : ∀ name ∈ [EcsSystemFunction.promoteInvoiceType.name] ++
      [EcsSystemFunction.generateNonce.name], Writable name :=
    List.forall_mem_cons.mpr ⟨by rw [Writable]; decide +kernel,
      List.forall_mem_singleton.mpr (by rw [Writable]; decide +kernel)⟩
  obtain ⟨ec', reply, ran, fails, -, equips⟩ :=
    setdefaultsystems_equips (Plugin.ok_init 2016) args
  have success : ∀ code message, reply ≠ .fail code message := by
    intro code message failed
    obtain ⟨name, member, unknown⟩ := fails.mp ⟨code, message, failed⟩
    exact unknown (of_decide_eq_true (List.all_eq_true.mp known name member))
  exact ⟨ec', reply, ran, success, (equips success).reads writable,
    (equips success).advances writable .nil (payecsAdvanceArgs_entityParams 1)⟩

/-! ## An entity that is given up -/

/-- Attach two amounts and a nonce to entity 1. -/
def twoAmountsParams : Json :=
  .tight [("writes".toList, .tight (("entity".toList, .primitive "1".toList) ::
    (twoAmounts ++ [(nonceComp, .string [])])))]

theorem twoAmountsParams_wellFormed : twoAmountsParams.WellFormed := by
  have writes : StringText "writes".toList := .of_plain rfl
  have entity : StringText "entity".toList := .of_plain rfl
  have amount : StringText "lightningd:amount".toList := .of_plain rfl
  have other : StringText "lightningd:invoice:amount_msat".toList := .of_plain rfl
  have nonce : StringText nonceComp := .of_plain rfl
  refine .tight (List.forall_mem_singleton.mpr writes) (List.forall_mem_singleton.mpr ?_)
  exact .tight
    (List.forall_mem_cons.mpr ⟨entity, List.forall_mem_cons.mpr ⟨amount,
      List.forall_mem_cons.mpr ⟨other, List.forall_mem_singleton.mpr nonce⟩⟩⟩)
    (List.forall_mem_cons.mpr ⟨.formatU 1, List.forall_mem_cons.mpr ⟨.formatU 1,
      List.forall_mem_cons.mpr ⟨.formatU 1, List.forall_mem_singleton.mpr (.string .nil)⟩⟩⟩)

/-- An advance with the default systems raises the notification of the first that
    matches. -/
theorem Plugin.Ok.advance_default {blocks : Nat} {p : Plugin} (ok : p.Ok blocks)
    {entity : UInt32} (named : NamesSystems p.ec entity defaultSystems) {func : EcsSystemFunction}
    (first : firstMatch p.ec entity = some func) :
    ∃ n p', p.Step ⟨.advance (entityParams entity), ⟨[n], none⟩⟩ p' ∧ n ∈ p'.notifications ∧
      n = runSystem p'.ec entity func.registered ∧ Matches p'.ec entity func.registered := by
  obtain ⟨reply, advanced⟩ := payecsAdvance_eq p.regs.ecs.systems ok.data
    (payecsAdvanceArgs_entityParams entity)
  obtain ⟨emitted, error⟩ := advanceSpec_default ok.agree.builtins.systems named
  have still : firstMatch (advanceSpec p.regs.ecs.systems p.ec entity).ec entity = some func :=
    (firstMatch_congr (isSome_cell_advanceSpec named)).trans first
  rw [still] at emitted error
  simp only [Option.toList_some, List.map_cons, List.map_nil, Option.elim_some] at emitted error
  have ran : p.step (.advance (entityParams entity)) = .ok (p.take
      ⟨(advanceSpec p.regs.ecs.systems p.ec entity).ec,
        [runSystem (advanceSpec p.regs.ecs.systems p.ec entity).ec entity func.registered], [],
        none⟩) := by
    rw [← emitted, ← error, Plugin.step, advanced]
    rfl
  refine ⟨_, _, ⟨entityParams_wellFormed entity, ran⟩, ?_, rfl, firstMatch_some still⟩
  exact List.mem_append_right _ (List.mem_singleton.mpr rfl)

theorem Plugin.Ok.give_default {blocks : Nat} {p : Plugin} (ok : p.Ok blocks) {params : Json}
    (wellFormed : params.WellFormed) {entity : UInt32}
    (args : payecsSetdefaultsystemsArgs params = .ok (entity, [], [])) :
    ∃ p', p.Step ⟨.setdefaultsystems params, ⟨[], none⟩⟩ p' ∧
      payecsSetdefaultsystems p.regs.ecs.systems p.ec params = .ok (p'.ec, .success []) ∧
      p'.ec = withSystems p.ec entity defaultSystems := by
  have given : payecsSetdefaultsystems p.regs.ecs.systems p.ec params =
      .ok (withSystems p.ec entity defaultSystems, .success []) := by
    rw [payecsSetdefaultsystems_eq _ ok.data args]
    rfl
  exact ⟨{ p with ec := withSystems p.ec entity defaultSystems },
    ⟨wellFormed, by rw [Plugin.step, given]; rfl⟩, given, rfl⟩

theorem payecsAdvance_detached {systems : SystemMap} {ec : Ec} (data : ec.All Json.WellFormed)
    {entity : UInt32} (detached : ec.cell entity syscomp = none) {params : Json}
    (args : payecsAdvanceArgs params = .ok entity) :
    ∃ done message, payecsAdvance systems ec params =
      .ok (done, .fail payEcsInvalidSystemsComponent message) := by
  have unread : payzGenericGetsystemsTal ec entity "systems".toList jsonToArrayOfStrings =
      none := by
    rw [payzGenericGetsystemsTal, ecGetComponent_eq, detached]
    rfl
  simp only [payecsAdvance, args, ecsysAdvance_eq systems data, advanceSpec, unread,
    errorMessage_afterError]
  exact ⟨_, _, rfl⟩

/-- With two amounts a system gives the entity up and detaches its systems, so that the next
    advance finds none, without any write by a client. -/
theorem given_up_entity_has_no_systems :
    ∃ labels p p' later q done message,
      Run Plugin.Step (.init (.primitive (formatU 2016))) labels p ∧
      p.Step ⟨.setdefaultsystems (entityParams 1), ⟨[], none⟩⟩ p' ∧
      payecsSetdefaultsystems p.regs.ecs.systems p.ec (entityParams 1) =
        .ok (p'.ec, .success []) ∧
      Run Plugin.Step p' later q ∧ (∀ label ∈ later, ¬ label.event.IsWrite) ∧
      payecsAdvance q.regs.ecs.systems q.ec (entityParams 1) =
        .ok (done, .fail payEcsInvalidSystemsComponent message) := by
  have wrote : payecsSetcomponents ecNew twoAmountsParams =
      .ok (ecNew.setAll 1 (twoAmounts ++ [(nonceComp, .string [])]), .success []) := rfl
  have step₁ : (Plugin.init (.primitive (formatU 2016))).Step
      ⟨.setcomponents twoAmountsParams, ⟨[], none⟩⟩
      { Plugin.init (.primitive (formatU 2016)) with
        ec := ecNew.setAll 1 (twoAmounts ++ [(nonceComp, .string [])]) } :=
    ⟨twoAmountsParams_wellFormed, by rw [Plugin.step, Plugin.init, wrote]; rfl⟩
  have ok₁ := (Plugin.ok_init 2016).step step₁
  have args : payecsSetdefaultsystemsArgs (entityParams 1) = .ok (1, [], []) := rfl
  obtain ⟨p₂, step₂, given, table⟩ := ok₁.give_default (entityParams_wellFormed 1) args
  have ok₂ := ok₁.step step₂
  have named : NamesSystems p₂.ec 1 defaultSystems :=
    table ▸ namesSystems_withSystems _ 1 writable_defaultSystems
  have first : firstMatch p₂.ec 1 = some .failInvoiceAmountAndAmount := by
    rw [table]
    decide +kernel
  obtain ⟨n, p₃, step₃, member, same, hit⟩ := ok₂.advance_default named first
  have ok₃ := ok₂.step step₃
  obtain ⟨output, q, p₄, step₄, acts, took⟩ :=
    ok₃.delivers member ok₃.data hit same (Vector.replicate 32 0)
  have ok₄ := ok₃.step step₄
  have detached : p₄.ec.cell 1 syscomp = none := by
    rw [took]
    exact acts.sound.detached p₃.regs.ecs.systems p₃.ec 1 rfl
  obtain ⟨done, message, failed⟩ := @payecsAdvance_detached p₄.regs.ecs.systems _ ok₄.data _
    detached _ (payecsAdvanceArgs_entityParams 1)
  refine ⟨_, _, _, _, p₄, done, message, .cons step₁ .nil, step₂, given,
    .cons step₃ (.cons step₄ .nil), ?_, failed⟩
  simp [Event.IsWrite]

end Payz
