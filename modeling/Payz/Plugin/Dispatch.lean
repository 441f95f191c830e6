import Payz.Lib.Asks
import Payz.Plugin.Steps

/-! # From a notification to a function

`ecs_system_notify` on any payload, with the call it makes, and the functions of the built-in
systems with the members they look up in the object they are called with.
-/

namespace Payz

/-- A call through the function pointer. -/
structure SystemCall where
  func : EcsSystemFunction
  entity : UInt32
  object : Json
  deriving Repr, DecidableEq

/-- The functions, as programs that look up members of their object. -/
def EcsSystemFunction.asks (env : Surroundings) (ec : Ec) (entity : UInt32) :
    EcsSystemFunction → Asks Text (Option Json) (Except Fault Outcome)
  | .generateNonce => .done (Payz.generateNonce env.systems env.nonce ec entity)
  | .parseInvoice =>
      .ask "lightningd:invoice".toList fun invoice => .done <|
        match ecSetComponentDatum ec entity "lightningd:parse_invoice:ran".toList
            (some "true".toList) with
        | .error fault => .error fault
        | .ok ec =>
            match invoice with
            | none => .error .outOfBounds
            | some invoice => .ok ⟨ec, [], [⟨entity, invoice⟩], none⟩
  | .promoteInvoiceType =>
      .ask "lightningd:invoice:type".toList fun typeTok => .done <|
        match typeTok with
        | none => .error .outOfBounds
        | some typeTok =>
            setDatumAndAdvance env.systems ec entity
              ("lightningd:invoice:type:".toList ++ typeTok.jsonStrdup) (some "true".toList)
  | .invoiceAmountMsat =>
      .ask "lightningd:invoice:amount_msat".toList fun amountMsat => .done <|
        match ecSetComponentDatum ec entity "lightningd:invoice:amount_msat".toList none with
        | .error fault => .error fault
        | .ok ec =>
            match amountMsat with
            | none => .error .assertion
            | some amountMsat =>
                ecsAdvanceDone env.systems
                  (ecSetComponent ec entity "lightningd:amount".toList (some amountMsat)) entity
  | .failInvoiceAmountAndAmount => .done (Payz.failInvoiceAmountAndAmount ec entity)
  | .defaulterRiskfactor => .done (Payz.defaulterRiskfactor env.systems ec entity)
  | .defaulterMaxfeepercent => .done (Payz.defaulterMaxfeepercent env.systems ec entity)
  | .defaulterRetryFor => .done (Payz.defaulterRetryFor env.systems ec entity)
  | .defaulterMaxdelay =>
      .done (Payz.defaulterMaxdelay env.systems env.defaultMaxdelay ec entity)
  | .defaulterExemptfee => .done (Payz.defaulterExemptfee env.systems ec entity)

/-- The loop of `ecs_system_notify` over the required components, and the call behind it. -/
def ecsSystemNotifyRequired (ec : Ec) (call : SystemCall) :
    List Text → Asks SystemCall (Except Fault Outcome) (Except Fault Outcome)
  | [] => .ask call .done
  | component :: required =>
      if (call.object.jsonGetMember component).isNone then .done (.ok (ecsDone ec))
      else ecsSystemNotifyRequired ec call required

/-- `ecs_system_notify`, as a program that calls a function. -/
def ecsSystemNotifyAsks (ecs : Registry) (ec : Ec) (params : Json) :
    Asks SystemCall (Except Fault Outcome) (Except Fault Outcome) :=
  match params.jsonGetMember "system".toList with
  | none => .done (.ok (ecsDone ec))
  | some system =>
      match ecs.systemFuncs[system.jsonStrdup]? with
      | none => .done (.ok (ecsDone ec))
      | some wrapper =>
          match params.jsonGetMember "entity".toList with
          | none => .done (.ok (ecsDone ec))
          | some entity =>
              match (entity.jsonGetMember "entity".toList).bind Json.jsonToU32 with
              | none => .done (.ok (ecsDone ec))
              | some eid => ecsSystemNotifyRequired ec ⟨wrapper.func, eid, entity⟩ wrapper.required

/-- The function that is called does what it looks up in the object tells it to. -/
theorem EcsSystemFunction.run_asks (func : EcsSystemFunction) (env : Surroundings) (ec : Ec)
    (entity : UInt32) (object : Json) :
    (func.asks env ec entity).run object.jsonGetMember = func.call env ec entity object := by
  cases func with
  | parseInvoice =>
      cases marked : ecSetComponentDatum ec entity "lightningd:parse_invoice:ran".toList
        (some "true".toList) with
      | error fault => simp only [asks, Asks.run, call, Payz.parseInvoice, marked]
      | ok ec =>
          cases found : object.jsonGetMember "lightningd:invoice".toList <;>
            simp only [asks, Asks.run, call, Payz.parseInvoice, marked, found]
  | promoteInvoiceType =>
      cases found : object.jsonGetMember "lightningd:invoice:type".toList <;>
        simp only [asks, Asks.run, call, Payz.promoteInvoiceType, found]
  | invoiceAmountMsat =>
      cases detached : ecSetComponentDatum ec entity "lightningd:invoice:amount_msat".toList
        none with
      | error fault => simp only [asks, Asks.run, call, Payz.invoiceAmountMsat, detached]
      | ok ec =>
          cases found : object.jsonGetMember "lightningd:invoice:amount_msat".toList <;>
            simp only [asks, Asks.run, call, Payz.invoiceAmountMsat, detached, found]
  | generateNonce | failInvoiceAmountAndAmount | defaulterRiskfactor | defaulterMaxfeepercent
  | defaulterRetryFor | defaulterMaxdelay | defaulterExemptfee => rw [asks, Asks.run, call]

/-- A function looks up nothing but the components its system requires. -/
theorem EcsSystemFunction.asks_within (func : EcsSystemFunction) (env : Surroundings) (ec : Ec)
    (entity : UInt32) :
    (func.asks env ec entity).Within (· ∈ func.registered.requiredComponents) := by
  cases func with
  | parseInvoice | promoteInvoiceType | invoiceAmountMsat =>
      exact ⟨List.mem_cons_self, fun _ => trivial⟩
  | generateNonce | failInvoiceAmountAndAmount | defaulterRiskfactor | defaulterMaxfeepercent
  | defaulterRetryFor | defaulterMaxdelay | defaulterExemptfee => trivial

/-- The outcome of a call depends on the required components alone. -/
theorem EcsSystemFunction.call_congr (func : EcsSystemFunction) (env : Surroundings) (ec : Ec)
    (entity : UInt32) {object object' : Json}
    (agree : ∀ component ∈ func.registered.requiredComponents,
      object.jsonGetMember component = object'.jsonGetMember component) :
    func.call env ec entity object = func.call env ec entity object' := by
  rw [← func.run_asks, ← func.run_asks]
  refine Asks.run_congr fun component asked => agree component ?_
  exact (func.asks_within env ec entity).asked _ component asked

/-! ## The call -/

theorem ecsSystemNotifyRequired_eq (ec : Ec) (call : SystemCall) (required : List Text) :
    ecsSystemNotifyRequired ec call required =
      if required.all fun component => (call.object.jsonGetMember component).isSome then
        .ask call .done
      else .done (.ok (ecsDone ec)) := by
  induction required with
  | nil => rfl
  | cons component required ih =>
      rw [ecsSystemNotifyRequired, ih, List.all_cons]
      cases call.object.jsonGetMember component <;> rfl

/-- The call is made behind the checks, and nothing is done where one of them fails. -/
theorem ecsSystemNotifyAsks_eq (ecs : Registry) (ec : Ec) (params : Json) :
    ecsSystemNotifyAsks ecs ec params =
      match ecsSystemLookup ecs params with
      | none => .done (.ok (ecsDone ec))
      | some (func, eid, object) => .ask ⟨func, eid, object⟩ .done := by
  rw [ecsSystemNotifyAsks, ecsSystemLookup]
  cases params.jsonGetMember "system".toList with
  | none => rfl
  | some system =>
      dsimp only
      cases ecs.systemFuncs[system.jsonStrdup]? with
      | none => rfl
      | some wrapper =>
          dsimp only
          cases params.jsonGetMember "entity".toList with
          | none => rfl
          | some entity =>
              dsimp only
              cases (entity.jsonGetMember "entity".toList).bind Json.jsonToU32 with
              | none => rfl
              | some eid =>
                  dsimp only
                  rw [ecsSystemNotifyRequired_eq]
                  split_ifs <;> rfl

def SystemCall.answer (env : Surroundings) (ec : Ec) (call : SystemCall) : Except Fault Outcome :=
  call.func.call env ec call.entity call.object

theorem run_ecsSystemNotifyAsks (ecs : Registry) (defaultMaxdelay : Option Text) (nonce : Nonce)
    (ec : Ec) (params : Json) :
    (ecsSystemNotifyAsks ecs ec params).run
        (SystemCall.answer ⟨ecs.systems, defaultMaxdelay, nonce⟩ ec) =
      ecsSystemNotify ecs defaultMaxdelay nonce ec params := by
  rw [ecsSystemNotifyAsks_eq, ecsSystemNotify]
  cases ecsSystemLookup ecs params <;> rfl

/-- What the payload has to hold for a function to be called. -/
structure Dispatches (params : Json) (call : SystemCall) : Prop where
  system : ∃ system, params.jsonGetMember "system".toList = some system ∧
    system.jsonStrdup = call.func.name
  entity : params.jsonGetMember "entity".toList = some call.object
  id : ∃ id, call.object.jsonGetMember "entity".toList = some id ∧
    id.jsonToU32 = some call.entity
  required : ∀ component ∈ call.func.registered.requiredComponents,
    ∃ datum, call.object.jsonGetMember component = some datum

theorem Registry.HasBuiltins.wrapper {ecs : Registry} (builtins : ecs.HasBuiltins) {name : Text}
    {wrapper : EcsSystemWrapper} (found : ecs.systemFuncs[name]? = some wrapper) :
    name = wrapper.func.name ∧ wrapper.required = wrapper.func.registered.requiredComponents := by
  have present : name ∈ ecs.systemFuncs :=
    Std.ExtTreeMap.mem_iff_isSome_getElem?.mpr (by rw [found]; rfl)
  obtain ⟨func, rfl⟩ := builtins.onlyFuncs name present
  rw [builtins.funcs] at found
  cases found
  exact ⟨rfl, rfl⟩

theorem dispatches_of_lookup {ecs : Registry} (builtins : ecs.HasBuiltins) {params : Json}
    {func : EcsSystemFunction} {eid : UInt32} {object : Json}
    (looked : ecsSystemLookup ecs params = some (func, eid, object)) :
    Dispatches params ⟨func, eid, object⟩ := by
  unfold ecsSystemLookup at looked
  cases hasSystem : params.jsonGetMember "system".toList with
  | none => simp only [hasSystem, reduceCtorEq] at looked
  | some system =>
      cases hasWrapper : ecs.systemFuncs[system.jsonStrdup]? with
      | none => simp only [hasSystem, hasWrapper, reduceCtorEq] at looked
      | some wrapper =>
          cases hasEntity : params.jsonGetMember "entity".toList with
          | none => simp only [hasSystem, hasWrapper, hasEntity, reduceCtorEq] at looked
          | some entity =>
              cases hasId : (entity.jsonGetMember "entity".toList).bind Json.jsonToU32 with
              | none => simp only [hasSystem, hasWrapper, hasEntity, hasId, reduceCtorEq] at looked
              | some id =>
                  simp only [hasSystem, hasWrapper, hasEntity, hasId, Option.ite_none_right_eq_some,
                    List.all_eq_true, Option.some.injEq, Prod.mk.injEq] at looked
                  obtain ⟨given, rfl, rfl, rfl⟩ := looked
                  obtain ⟨name, required⟩ := builtins.wrapper hasWrapper
                  rw [required] at given
                  exact ⟨⟨system, hasSystem, name⟩, hasEntity, Option.bind_eq_some_iff.mp hasId,
                    fun component member => Option.isSome_iff_exists.mp (given component member)⟩

theorem Dispatches.lookup {ecs : Registry} (builtins : ecs.HasBuiltins) {params : Json}
    {call : SystemCall} (dispatches : Dispatches params call) :
    ecsSystemLookup ecs params = some (call.func, call.entity, call.object) := by
  obtain ⟨system, hasSystem, name⟩ := dispatches.system
  have hasId : (call.object.jsonGetMember "entity".toList).bind Json.jsonToU32 =
      some call.entity := Option.bind_eq_some_iff.mpr dispatches.id
  have given : (call.func.registered.requiredComponents.all fun component =>
      (call.object.jsonGetMember component).isSome) = true :=
    List.all_eq_true.mpr fun component member =>
      Option.isSome_iff_exists.mpr (dispatches.required component member)
  simp only [ecsSystemLookup, hasSystem, name, builtins.funcs, dispatches.entity, hasId, given,
    if_true]

/-! ## The plugin -/

/-- The registries that the program comes by: those of `setup_payz_top`, and what
    `payecs_newsystem` makes of them. -/
inductive Registries.Reached : Registries → Prop where
  | setup : Registries.setup.Reached
  | newsystem {regs regs' : Registries} {params : Json} {reply : Reply} : regs.Reached →
      payecsNewsystem regs params = .ok (regs', reply) → regs'.Reached

theorem Registries.Reached.agree {regs : Registries} (reached : regs.Reached) :
    RegistriesAgree regs := by
  induction reached with
  | setup => exact registriesAgree_setup
  | newsystem _ ran ih => exact (payecsNewsystem_keeps ih ran).1

/-- What `ecs_system_notify` makes of the plugin. -/
def Plugin.notified (p : Plugin) (nonce : Nonce) (params : Json) :
    Except Fault (Plugin × Output) :=
  (ecsSystemNotify p.regs.ecs p.defaultMaxdelay nonce p.ec params).map p.take

/-- What the functions read besides their arguments. -/
def Plugin.surroundings (p : Plugin) (nonce : Nonce) : Surroundings :=
  ⟨p.regs.ecs.systems, p.defaultMaxdelay, nonce⟩

/-- The calls that `ecs_system_notify` makes. -/
def Plugin.calls (p : Plugin) (nonce : Nonce) (params : Json) : List SystemCall :=
  (ecsSystemNotifyAsks p.regs.ecs p.ec params).asked
    (SystemCall.answer (p.surroundings nonce) p.ec)

/-- The members that a call looks up in its object. -/
def Plugin.lookups (p : Plugin) (nonce : Nonce) (call : SystemCall) : List Text :=
  (call.func.asks (p.surroundings nonce) p.ec call.entity).asked call.object.jsonGetMember

theorem Plugin.mem_calls (p : Plugin) (nonce : Nonce) (params : Json) (call : SystemCall) :
    call ∈ p.calls nonce params ↔
      ecsSystemLookup p.regs.ecs params = some (call.func, call.entity, call.object) := by
  rw [Plugin.calls, ecsSystemNotifyAsks_eq]
  cases ecsSystemLookup p.regs.ecs params with
  | none => simp [Asks.asked]
  | some found =>
      obtain ⟨func, eid, object⟩ := found
      cases call
      simp [Asks.asked, eq_comm]

theorem Plugin.length_calls_le (p : Plugin) (nonce : Nonce) (params : Json) :
    (p.calls nonce params).length ≤ 1 := by
  rw [Plugin.calls, ecsSystemNotifyAsks_eq]
  cases ecsSystemLookup p.regs.ecs params with
  | none => exact Nat.zero_le 1
  | some found => exact le_rfl

/-- What a payload comes to: the outcome of the call, and nothing without one. -/
theorem Plugin.notified_eq (p : Plugin) (nonce : Nonce) (params : Json) :
    (p.calls nonce params = [] → p.notified nonce params = .ok (p, ⟨[], none⟩)) ∧
      ∀ call ∈ p.calls nonce params,
        p.notified nonce params = (call.answer (p.surroundings nonce) p.ec).map p.take := by
  rw [Plugin.notified, ← run_ecsSystemNotifyAsks, Plugin.calls, ecsSystemNotifyAsks_eq]
  cases ecsSystemLookup p.regs.ecs params with
  | none => simp [Asks.run, Asks.asked, Except.map, Plugin.take, ecsDone]
  | some found =>
      constructor
      · intro none
        cases none
      · intro call member
        cases List.mem_singleton.mp member
        rfl

/-- A payload reaches a function if and only if it names its system and gives the entity and
    the components the system requires, and it reaches one at most.  Otherwise the plugin stays
    as it is.  No function misses a member that it looks up. -/
theorem Plugin.notified_dispatch (p : Plugin) (reached : p.regs.Reached) (nonce : Nonce)
    (params : Json) :
    (∀ call, call ∈ p.calls nonce params ↔ Dispatches params call) ∧
      (p.calls nonce params).length ≤ 1 ∧
      (p.calls nonce params = [] → p.notified nonce params = .ok (p, ⟨[], none⟩)) ∧
      ∀ call ∈ p.calls nonce params,
        p.notified nonce params = (call.answer (p.surroundings nonce) p.ec).map p.take ∧
          ∀ component ∈ p.lookups nonce call,
            ∃ datum, call.object.jsonGetMember component = some datum := by
  have builtins := reached.agree.builtins
  have called : ∀ call, call ∈ p.calls nonce params ↔ Dispatches params call := fun call =>
    (p.mem_calls nonce params call).trans
      ⟨dispatches_of_lookup builtins, Dispatches.lookup builtins⟩
  obtain ⟨passed, answered⟩ := p.notified_eq nonce params
  refine ⟨called, p.length_calls_le nonce params, passed, ?_⟩
  intro call member
  refine ⟨answered call member, fun component looked => ?_⟩
  have required := (call.func.asks_within _ _ _).asked _ component looked
  exact ((called call).mp member).required component required

theorem Plugin.notified_dispatch_parse :
    ⟨.parseInvoice, 7, (runSystem ecNew 7 EcsSystemFunction.parseInvoice.registered).entityObject⟩ ∈
      (init (.primitive (formatU 2016))).calls (.replicate 32 0)
        (runSystem ecNew 7 EcsSystemFunction.parseInvoice.registered).payload :=
  ((notified_dispatch (init (.primitive (formatU 2016))) .setup (.replicate 32 0) _).1 _).mpr <|
    dispatches_of_lookup hasBuiltins_builtinRegistry
      (ecsSystemLookup_builtin hasBuiltins_builtinRegistry ecNew 7 .parseInvoice)

end Payz
