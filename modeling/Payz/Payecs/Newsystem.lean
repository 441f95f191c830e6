import Payz.Lib.Runs
import Payz.Top

/-! # Systems of other plugins

`payecs_newsystem` of `plugins/payz/payecs_code.c`.  A system goes into two registries, the
one of external systems and, through an array of descriptors, the one of ECSYS; a
third holds the functions of the built-in systems.  The commands other than
`payecs_newsystem` only read them.
-/

namespace Payz

open Runs

structure PayecsExternalSystem where
  system : Text
  required : List Text
  disallowed : List Text
  deriving Repr, DecidableEq

structure Registries where
  ecs : Registry
  payecs : Std.ExtTreeMap Text PayecsExternalSystem

def Registries.setup : Registries := ⟨builtinRegistry, ∅⟩

/-- The counts are compared first, then the names one by one. -/
def sameNames (names names' : List Text) : Bool :=
  names.length == names'.length && (names.zip names').all fun pair => pair.1 == pair.2

/-- The descriptors that `payecs_register` puts together. -/
def payecsRegisterDescs (exsys : PayecsExternalSystem) : List EcsRegisterDesc :=
  let reg := ecsRegisterExtend ecsRegisterBegin (.name exsys.system)
  let reg := exsys.required.foldl (fun reg component =>
    ecsRegisterExtend reg (.require component)) reg
  let reg := exsys.disallowed.foldl (fun reg component =>
    ecsRegisterExtend reg (.disallow component)) reg
  ecsRegisterExtend reg .done

def payecsRegister (regs : Registries) (system : Text) (required disallowed : List Text) :
    Except Fault (Bool × Registries) :=
  match regs.payecs[system]? with
  | some exsys =>
      .ok (system == exsys.system && sameNames required exsys.required &&
        sameNames disallowed exsys.disallowed, regs)
  | none =>
      if system ∈ regs.ecs.systems.map then .ok (false, regs)
      else
        let exsys : PayecsExternalSystem := ⟨system, required, disallowed⟩
        (ecsRegister regs.ecs (payecsRegisterDescs exsys)).map fun ecs =>
          (true, ⟨ecs, regs.payecs.insertIfNew system exsys⟩)

def payecsNewsystemParams : List Param :=
  [paramString "system" true, paramArrayOfStrings "required" true,
    paramArrayOfStrings "disallowed" false]

/-- The parameters of `payecs_newsystem`: `system`, `required` and `disallowed`. -/
def payecsNewsystemArgs (params : Json) : Except CommandFail (Text × List Text × List Text) :=
  (param payecsNewsystemParams params).map fun values =>
    (((values.getD 0 none).map Json.jsonStrdup).getD [],
      ((values.getD 1 none).bind jsonToArrayOfStrings).getD [],
      ((values.getD 2 none).bind jsonToArrayOfStrings).getD [])

def payecsNewsystem (regs : Registries) (params : Json) : Except Fault (Registries × Reply) :=
  match payecsNewsystemArgs params with
  | .error fail => .ok (regs, .fail fail.1 fail.2)
  | .ok (system, required, disallowed) =>
      match payecsRegister regs system required disallowed with
      | .error fault => .error fault
      | .ok (false, regs) =>
          .ok (regs, .fail jsonrpc2InvalidParams
            ("Conflict with existing `system`: ".toList ++ system))
      | .ok (true, regs) => .ok (regs, .success [])

/-! ## What `payecs_register` does -/

theorem sameNames_iff (names names' : List Text) : sameNames names names' = true ↔ names = names' := by
  induction names generalizing names' with
  | nil => cases names' <;> simp [sameNames]
  | cons name names ih =>
      cases names' with
      | nil => simp [sameNames]
      | cons name' names' =>
          have rest := ih names'
          simp only [sameNames, Bool.and_eq_true, beq_iff_eq] at rest
          simp only [sameNames, List.length_cons, List.zip_cons_cons, List.all_cons,
            Bool.and_eq_true, beq_iff_eq, Nat.add_right_cancel_iff, List.cons.injEq, ← rest]
          exact and_left_comm

theorem foldl_ecsRegisterExtend (desc : Text → EcsRegisterDesc) (components : List Text)
    (front : List EcsRegisterDesc) :
    components.foldl (fun reg component => ecsRegisterExtend reg (desc component))
      (front ++ [.overAndOut]) = front ++ components.map desc ++ [.overAndOut] := by
  induction components generalizing front with
  | nil => simp
  | cons component components ih =>
      rw [List.foldl_cons, ecsRegisterExtend_eq, ih]
      simp

theorem payecsRegisterDescs_eq (exsys : PayecsExternalSystem) :
    payecsRegisterDescs exsys = systemDescs exsys.system exsys.required exsys.disallowed := by
  have start : ecsRegisterExtend ecsRegisterBegin (.name exsys.system) =
      [.name exsys.system] ++ [.overAndOut] := rfl
  simp only [payecsRegisterDescs, start, foldl_ecsRegisterExtend, ecsRegisterExtend_eq]
  simp [systemDescs]

/-- A new name is registered, unless components are disallowed and none required. -/
theorem payecsRegister_new {regs : Registries} {system : Text} {required disallowed : List Text}
    (unknown : regs.payecs[system]? = none) (fresh : system ∉ regs.ecs.systems.map) :
    payecsRegister regs system required disallowed =
      if required = [] ∧ disallowed ≠ [] then .error .assertion
      else .ok (true, ⟨{ regs.ecs with
        systems := regs.ecs.systems.insert ⟨system, required, disallowed⟩ },
        regs.payecs.insertIfNew system ⟨system, required, disallowed⟩⟩) := by
  simp only [payecsRegister, unknown, fresh, if_false, payecsRegisterDescs_eq,
    ecsRegister_systemDescs, ecsysRegister]
  split_ifs <;> rfl

/-! ## Agreement of the registries -/

/-- What holds of the registries in every reachable state. -/
structure RegistriesAgree (regs : Registries) : Prop where
  builtins : regs.ecs.HasBuiltins
  names : ∀ name, name ∈ regs.ecs.systems.map ↔ name ∈ defaultSystems ∨ name ∈ regs.payecs
  disjoint : ∀ name ∈ regs.payecs, name ∉ defaultSystems
  lists : ∀ (name : Text) (exsys : PayecsExternalSystem), regs.payecs[name]? = some exsys →
    exsys.system = name ∧
      regs.ecs.systems.map[name]? = some ⟨name, exsys.required, exsys.disallowed⟩
  funcs : ∀ (name : Text) (wrapper : EcsSystemWrapper), regs.ecs.systemFuncs[name]? = some wrapper →
    ∃ system, regs.ecs.systems.map[name]? = some system ∧
      system.requiredComponents = wrapper.required

theorem Registry.HasBuiltins.funcs_agree {ecs : Registry} (builtins : ecs.HasBuiltins) (name : Text)
    (wrapper : EcsSystemWrapper) (found : ecs.systemFuncs[name]? = some wrapper) :
    ∃ system, ecs.systems.map[name]? = some system ∧
      system.requiredComponents = wrapper.required := by
  have present : name ∈ ecs.systemFuncs :=
    Std.ExtTreeMap.mem_iff_isSome_getElem?.mpr (by simp [found])
  obtain ⟨func, rfl⟩ := builtins.onlyFuncs name present
  rw [builtins.funcs] at found
  cases found
  exact ⟨func.registered, builtins.systems func, rfl⟩

theorem registriesAgree_setup : RegistriesAgree .setup where
  builtins := hasBuiltins_builtinRegistry
  names name := by
    constructor
    · exact fun member =>
        .inl (builtinRegistry_entries.1 name (Std.ExtTreeMap.mem_keys.mpr member))
    · rintro (member | member)
      · obtain ⟨func, rfl⟩ := exists_builtin_of_mem member
        rw [Std.ExtTreeMap.mem_iff_isSome_getElem?]
        simp [Registries.setup, hasBuiltins_builtinRegistry.systems func]
      · simp [Registries.setup] at member
  disjoint := by simp [Registries.setup]
  lists := by simp [Registries.setup]
  funcs := hasBuiltins_builtinRegistry.funcs_agree

theorem name_mem_defaultSystems (func : EcsSystemFunction) : func.name ∈ defaultSystems := by
  rw [defaultSystems_eq]
  exact List.mem_map.mpr ⟨func, mem_builtins func, rfl⟩

/-- Adding a fresh external system keeps the registries in agreement. -/
theorem RegistriesAgree.insert {regs : Registries} (agree : RegistriesAgree regs) {system : Text}
    (required disallowed : List Text) (fresh : system ∉ regs.ecs.systems.map) :
    RegistriesAgree ⟨{ regs.ecs with
      systems := regs.ecs.systems.insert ⟨system, required, disallowed⟩ },
      regs.payecs.insertIfNew system ⟨system, required, disallowed⟩⟩ := by
  have notBuiltin : system ∉ defaultSystems := fun member =>
    fresh ((agree.names system).mpr (.inl member))
  have unknown : system ∉ regs.payecs := fun member =>
    fresh ((agree.names system).mpr (.inr member))
  have builtins : Registry.HasBuiltins { regs.ecs with
      systems := regs.ecs.systems.insert ⟨system, required, disallowed⟩ } := by
    refine ⟨fun func => ?_, agree.builtins.funcs, agree.builtins.onlyFuncs⟩
    have differ : system ≠ func.name := by
      rintro rfl
      exact notBuiltin (name_mem_defaultSystems func)
    simpa [SystemMap.insert, Std.ExtTreeMap.getElem?_insert, differ] using
      agree.builtins.systems func
  refine ⟨builtins, ?_, ?_, ?_, builtins.funcs_agree⟩
  · intro name
    simp only [SystemMap.insert, Std.ExtTreeMap.mem_insert, Std.ExtTreeMap.mem_insertIfNew,
      Std.LawfulEqOrd.compare_eq_iff_eq, agree.names name]
    exact or_left_comm
  · intro name member
    rw [Std.ExtTreeMap.mem_insertIfNew, Std.LawfulEqOrd.compare_eq_iff_eq] at member
    rcases member with rfl | member
    · exact notBuiltin
    · exact agree.disjoint name member
  · intro name exsys found
    simp only [Std.ExtTreeMap.getElem?_insertIfNew, Std.LawfulEqOrd.compare_eq_iff_eq] at found
    by_cases same : system = name
    · subst same
      rw [if_pos ⟨rfl, unknown⟩] at found
      cases found
      simp [SystemMap.insert]
    · rw [if_neg (by simp [same])] at found
      obtain ⟨own, there⟩ := agree.lists name exsys found
      refine ⟨own, ?_⟩
      simpa [SystemMap.insert, Std.ExtTreeMap.getElem?_insert, same] using there

theorem payecsRegister_cases {regs regs' : Registries} (agree : RegistriesAgree regs)
    {system : Text} {required disallowed : List Text} {ok : Bool}
    (returned : payecsRegister regs system required disallowed = .ok (ok, regs')) :
    (regs' = regs ∧ (ok = true ↔ regs.payecs[system]? = some ⟨system, required, disallowed⟩) ∧
      system ∈ regs.ecs.systems.map) ∨
    (ok = true ∧ system ∉ regs.ecs.systems.map ∧ regs' = ⟨{ regs.ecs with
      systems := regs.ecs.systems.insert ⟨system, required, disallowed⟩ },
      regs.payecs.insertIfNew system ⟨system, required, disallowed⟩⟩) := by
  cases known : regs.payecs[system]? with
  | some exsys =>
      obtain ⟨own, there⟩ := agree.lists system exsys known
      simp only [payecsRegister, known, Except.ok.injEq, Prod.mk.injEq] at returned
      obtain ⟨rfl, rfl⟩ := returned
      refine .inl ⟨rfl, ?_, Std.ExtTreeMap.mem_iff_isSome_getElem?.mpr (by simp [there])⟩
      simp only [Bool.and_eq_true, beq_iff_eq, sameNames_iff, own, true_and, Option.some.injEq]
      cases exsys
      simp only at own
      simp [own, eq_comm]
  | none =>
      by_cases there : system ∈ regs.ecs.systems.map
      · simp only [payecsRegister, known, there, if_true, Except.ok.injEq, Prod.mk.injEq] at returned
        obtain ⟨rfl, rfl⟩ := returned
        exact .inl ⟨rfl, by simp, there⟩
      · rw [payecsRegister_new known there] at returned
        split_ifs at returned
        simp only [Except.ok.injEq, Prod.mk.injEq] at returned
        exact .inr ⟨returned.1.symm, there, returned.2.symm⟩

theorem payecsNewsystem_cases {regs regs' : Registries} (agree : RegistriesAgree regs)
    {params : Json} {reply : Reply} (returned : payecsNewsystem regs params = .ok (regs', reply)) :
    (regs' = regs ∧ ∀ system required disallowed,
      payecsNewsystemArgs params = .ok (system, required, disallowed) →
        (reply = .success [] ↔ regs.payecs[system]? = some ⟨system, required, disallowed⟩) ∧
        system ∈ regs.ecs.systems.map) ∨
    (∃ system required disallowed, payecsNewsystemArgs params = .ok (system, required, disallowed) ∧
      reply = .success [] ∧ system ∉ regs.ecs.systems.map ∧
      regs' = ⟨{ regs.ecs with
        systems := regs.ecs.systems.insert ⟨system, required, disallowed⟩ },
        regs.payecs.insertIfNew system ⟨system, required, disallowed⟩⟩) := by
  unfold payecsNewsystem at returned
  cases args : payecsNewsystemArgs params with
  | error fail =>
      simp only [args, Except.ok.injEq, Prod.mk.injEq] at returned
      exact .inl ⟨returned.1.symm, by simp⟩
  | ok call =>
      obtain ⟨system, required, disallowed⟩ := call
      simp only [args] at returned
      cases registered : payecsRegister regs system required disallowed with
      | error fault => simp [registered] at returned
      | ok result =>
          obtain ⟨ok, after⟩ := result
          have answer : regs' = after ∧ (reply = .success [] ↔ ok = true) := by
            cases ok <;> simp only [registered, Except.ok.injEq, Prod.mk.injEq] at returned
            · exact ⟨returned.1.symm, by simp [← returned.2]⟩
            · exact ⟨returned.1.symm, by simp [← returned.2]⟩
          obtain ⟨rfl, success⟩ := answer
          rcases payecsRegister_cases agree registered with ⟨same, known, there⟩ | ⟨ok, fresh, new⟩
          · refine .inl ⟨same, ?_⟩
            rintro _ _ _ equal
            cases equal
            exact ⟨success.trans known, there⟩
          · exact .inr ⟨system, required, disallowed, rfl, success.mpr ok, fresh, new⟩

theorem payecsNewsystem_ne_eexist (regs : Registries) (params : Json) :
    payecsNewsystem regs params ≠ .error .eexist := by
  unfold payecsNewsystem
  cases payecsNewsystemArgs params with
  | error fail => simp
  | ok call =>
      obtain ⟨system, required, disallowed⟩ := call
      simp only
      cases known : regs.payecs[system]? with
      | some exsys =>
          simp only [payecsRegister, known]
          split <;> simp_all
      | none =>
          by_cases there : system ∈ regs.ecs.systems.map
          · simp [payecsRegister, known, there]
          · rw [payecsRegister_new known there]
            split_ifs <;> simp

/-! ## Runs -/

/-- A call of `payecs_newsystem` with its answer, or any other command. -/
inductive RegistryEvent where
  | newsystem (params : Json) (reply : Reply)
  | other

/-- The registries before and after a command that returned. -/
def RegistryStep (regs : Registries) : RegistryEvent → Registries → Prop
  | .newsystem params reply, regs' => payecsNewsystem regs params = .ok (regs', reply)
  | .other, regs' => regs' = regs

/-- A system was registered with these components by an earlier call. -/
def RegisteredAs (past : List RegistryEvent) (system : Text) (required disallowed : List Text) :
    Prop :=
  ∃ params, RegistryEvent.newsystem params (.success []) ∈ past ∧
    payecsNewsystemArgs params = .ok (system, required, disallowed)

/-- The registries agree, and the external ones are those registered so far. -/
structure RegistriesAfter (past : List RegistryEvent) (regs : Registries) : Prop where
  agree : RegistriesAgree regs
  registered : ∀ system required disallowed,
    regs.payecs[system]? = some ⟨system, required, disallowed⟩ ↔
      RegisteredAs past system required disallowed

theorem RegisteredAs.append {past : List RegistryEvent} {event : RegistryEvent} {system : Text}
    {required disallowed : List Text} :
    RegisteredAs (past ++ [event]) system required disallowed ↔
      RegisteredAs past system required disallowed ∨
      ∃ params, event = .newsystem params (.success []) ∧
        payecsNewsystemArgs params = .ok (system, required, disallowed) := by
  constructor
  · rintro ⟨params, member, args⟩
    rcases List.mem_append.mp member with earlier | last
    · exact .inl ⟨params, earlier, args⟩
    · exact .inr ⟨params, (List.mem_singleton.mp last).symm, args⟩
  · rintro (⟨params, member, args⟩ | ⟨params, rfl, args⟩)
    · exact ⟨params, List.mem_append_left _ member, args⟩
    · exact ⟨params, by simp, args⟩

theorem registriesAfter_step (past : List RegistryEvent) (regs : Registries) (event : RegistryEvent)
    (regs' : Registries) (after : RegistriesAfter past regs) (step : RegistryStep regs event regs') :
    RegistriesAfter (past ++ [event]) regs' := by
  cases event with
  | other =>
      obtain rfl : regs' = regs := step
      refine ⟨after.agree, fun system required disallowed => ?_⟩
      rw [RegisteredAs.append, after.registered]
      simp
  | newsystem params reply =>
      rcases payecsNewsystem_cases after.agree step with
        ⟨rfl, known⟩ | ⟨system, required, disallowed, args, rfl, fresh, rfl⟩
      · refine ⟨after.agree, fun system required disallowed => ?_⟩
        rw [RegisteredAs.append, after.registered, or_iff_left_of_imp]
        rintro ⟨params', same, args⟩
        cases same
        exact (after.registered _ _ _).mp ((known _ _ _ args).1.mp rfl)
      · refine ⟨after.agree.insert required disallowed fresh, fun name req dis => ?_⟩
        have unknown : system ∉ regs.payecs := fun member =>
          fresh ((after.agree.names system).mpr (.inr member))
        simp only [RegisteredAs.append, ← after.registered, Std.ExtTreeMap.getElem?_insertIfNew,
          Std.LawfulEqOrd.compare_eq_iff_eq]
        by_cases same : system = name
        · subst same
          rw [if_pos ⟨rfl, unknown⟩, Std.ExtTreeMap.getElem?_eq_none unknown]
          constructor
          · intro equal
            cases equal
            exact .inr ⟨params, rfl, args⟩
          · rintro (bad | ⟨params', equal, args'⟩)
            · cases bad
            · cases equal
              rw [args] at args'
              cases args'
              rfl
        · rw [if_neg (by simp [same])]
          refine (or_iff_left_of_imp ?_).symm
          rintro ⟨params', equal, args'⟩
          cases equal
          rw [args] at args'
          cases args'
          exact absurd rfl same

theorem newsystem_run {past : List RegistryEvent} {regs : Registries}
    (run : Run RegistryStep .setup past regs) : RegistriesAfter past regs := by
  have start : RegistriesAfter [] .setup := by
    refine ⟨registriesAgree_setup, fun system required disallowed => ?_⟩
    simp [Registries.setup, RegisteredAs]
  exact run.history registriesAfter_step start

/-- The registries agree in every reachable state; a call succeeds for a new name or
    when it repeats an earlier one, and otherwise changes nothing. -/
theorem newsystem_idempotent {past : List RegistryEvent} {regs : Registries}
    (run : Run RegistryStep .setup past regs) :
    RegistriesAgree regs ∧ (∀ params, payecsNewsystem regs params ≠ .error .eexist) ∧
      ∀ params regs' reply, payecsNewsystem regs params = .ok (regs', reply) →
        (reply ≠ .success [] → regs' = regs) ∧
        ∀ system required disallowed,
          payecsNewsystemArgs params = .ok (system, required, disallowed) →
          (reply = .success [] ↔ RegisteredAs past system required disallowed ∨
            (system ∉ defaultSystems ∧
              ∀ required disallowed, ¬ RegisteredAs past system required disallowed)) ∧
          (RegisteredAs past system required disallowed → regs' = regs) := by
  have after := newsystem_run run
  refine ⟨after.agree, payecsNewsystem_ne_eexist regs, ?_⟩
  intro params regs' reply returned
  have fresh_iff : ∀ system, system ∉ regs.ecs.systems.map ↔ system ∉ defaultSystems ∧
      ∀ required disallowed, ¬ RegisteredAs past system required disallowed := by
    intro system
    rw [after.agree.names, not_or]
    refine and_congr_right fun _ => ⟨?_, ?_⟩
    · intro absent required disallowed known
      rw [← after.registered] at known
      exact absent (Std.ExtTreeMap.mem_iff_isSome_getElem?.mpr (by simp [known]))
    · intro never present
      obtain ⟨exsys, known⟩ := Option.isSome_iff_exists.mp
        (Std.ExtTreeMap.mem_iff_isSome_getElem?.mp present)
      have own := (after.agree.lists system exsys known).1
      refine never exsys.required exsys.disallowed ((after.registered _ _ _).mp ?_)
      rw [known, ← own]
  rcases payecsNewsystem_cases after.agree returned with
    ⟨rfl, known⟩ | ⟨system, required, disallowed, args, rfl, fresh, rfl⟩
  · refine ⟨fun _ => rfl, fun system required disallowed args => ⟨?_, fun _ => rfl⟩⟩
    obtain ⟨success, there⟩ := known system required disallowed args
    rw [success, after.registered, ← fresh_iff]
    simp [there]
  · refine ⟨fun failed => absurd rfl failed, fun system' required' disallowed' args' => ?_⟩
    rw [args] at args'
    cases args'
    refine ⟨⟨fun _ => .inr ((fresh_iff system).mp fresh), fun _ => rfl⟩, fun known => ?_⟩
    exact absurd known (((fresh_iff system).mp fresh).2 required disallowed)

/-- A system `x` that requires a component `a` is registered, and repeating the call
    changes nothing. -/
theorem newsystem_idempotent_one_call :
    let params : Json := .tight [("system".toList, .string "x".toList),
      ("required".toList, .string "a".toList)]
    ∃ regs, Run RegistryStep .setup [.newsystem params (.success [])] regs ∧
      RegistriesAgree regs ∧ ∀ regs' reply, payecsNewsystem regs params = .ok (regs', reply) →
        reply = .success [] ∧ regs' = regs := by
  intro params
  have args : payecsNewsystemArgs params = .ok ("x".toList, ["a".toList], []) := rfl
  have fresh : "x".toList ∉ Registries.setup.ecs.systems.map := by
    rw [registriesAgree_setup.names, not_or]
    exact ⟨by decide, by simp [Registries.setup]⟩
  have unknown : Registries.setup.payecs["x".toList]? = none := by simp [Registries.setup]
  have first : ∃ regs, payecsNewsystem .setup params = .ok (regs, .success []) := by
    simp only [payecsNewsystem, args, payecsRegister_new unknown fresh]
    exact ⟨_, rfl⟩
  obtain ⟨regs, returned⟩ := first
  have run : Run RegistryStep .setup [.newsystem params (.success [])] regs := .cons returned .nil
  obtain ⟨agree, -, calls⟩ := newsystem_idempotent run
  refine ⟨regs, run, agree, fun regs' reply again => ?_⟩
  have repeated : RegisteredAs [.newsystem params (.success [])] "x".toList ["a".toList] [] :=
    ⟨params, by simp, args⟩
  obtain ⟨success, same⟩ := (calls params regs' reply again).2 _ _ _ args
  exact ⟨success.mpr (.inl repeated), same repeated⟩

/-! ## Calls that abort -/

/-- A call with these arguments trips an assertion: a new system for which components
    are disallowed and none is required. -/
def OnlyDisallows (regs : Registries) (params : Json) : Prop :=
  ∃ system disallowed, payecsNewsystemArgs params = .ok (system, [], disallowed) ∧
    disallowed ≠ [] ∧ system ∉ regs.ecs.systems.map

theorem payecsRegister_returns_iff {regs : Registries} (agree : RegistriesAgree regs)
    (system : Text) (required disallowed : List Text) :
    (∃ result, payecsRegister regs system required disallowed = .ok result) ↔
      ¬ (required = [] ∧ disallowed ≠ [] ∧ system ∉ regs.ecs.systems.map) := by
  by_cases fresh : system ∈ regs.ecs.systems.map
  · simp only [fresh, not_true_eq_false, and_false, not_false_eq_true, iff_true]
    cases known : regs.payecs[system]? with
    | some exsys =>
        simp only [payecsRegister, known]
        exact ⟨_, rfl⟩
    | none =>
        simp only [payecsRegister, known, fresh, if_true]
        exact ⟨_, rfl⟩
  · have unknown : regs.payecs[system]? = none := by
      apply Std.ExtTreeMap.getElem?_eq_none
      exact fun member => fresh ((agree.names system).mpr (.inr member))
    rw [payecsRegister_new unknown fresh]
    by_cases aborts : required = [] ∧ disallowed ≠ []
    · simp [aborts, fresh]
    · rw [if_neg aborts]
      exact ⟨fun _ both => aborts ⟨both.1, both.2.1⟩, fun _ => ⟨_, rfl⟩⟩

theorem payecsNewsystem_returns_iff {regs : Registries} {params : Json} {system : Text}
    {required disallowed : List Text}
    (args : payecsNewsystemArgs params = .ok (system, required, disallowed)) :
    (∃ regs' reply, payecsNewsystem regs params = .ok (regs', reply)) ↔
      ∃ result, payecsRegister regs system required disallowed = .ok result := by
  simp only [payecsNewsystem, args]
  cases registered : payecsRegister regs system required disallowed with
  | error fault => simp
  | ok result =>
      obtain ⟨ok, after⟩ := result
      refine ⟨fun _ => ⟨_, rfl⟩, fun _ => ?_⟩
      cases ok with
      | false => exact ⟨_, _, rfl⟩
      | true => exact ⟨_, _, rfl⟩

/-- In every reachable state a call returns unless it only disallows. -/
theorem newsystem_returns_iff {past : List RegistryEvent} {regs : Registries}
    (run : Run RegistryStep .setup past regs) (params : Json) :
    (∃ regs' reply, payecsNewsystem regs params = .ok (regs', reply)) ↔
      ¬ OnlyDisallows regs params := by
  have agree := (newsystem_run run).agree
  cases args : payecsNewsystemArgs params with
  | error fail =>
      refine ⟨?_, fun _ => ?_⟩
      · rintro - ⟨system, disallowed, other, -⟩
        rw [args] at other
        cases other
      · simp only [payecsNewsystem, args]
        exact ⟨_, _, rfl⟩
  | ok call =>
      obtain ⟨system, required, disallowed⟩ := call
      rw [payecsNewsystem_returns_iff args, payecsRegister_returns_iff agree]
      refine not_congr ⟨?_, ?_⟩
      · rintro ⟨rfl, rest⟩
        exact ⟨system, disallowed, args, rest⟩
      · rintro ⟨system', disallowed', other, rest⟩
        rw [args] at other
        cases other
        exact ⟨rfl, rest⟩

/-- A system that requires a component is registered. -/
theorem newsystem_returns_iff_one_call :
    ∃ regs reply, payecsNewsystem .setup (.tight [("system".toList, .string "x".toList),
      ("required".toList, .string "a".toList)]) = .ok (regs, reply) := by
  refine (newsystem_returns_iff .nil _).mpr ?_
  rintro ⟨system, disallowed, args, -⟩
  cases args

/-- The parameters `["x", [], ["a"]]`. -/
def onlyDisallowsParams : Json :=
  .array "[\"x\",[],[\"a\"]]".toList [.string "x".toList, .array "[]".toList [],
    .array "[\"a\"]".toList [.string "a".toList]]

/-- They abort the plugin right after startup. -/
theorem newsystem_only_disallows_aborts :
    payecsNewsystem .setup onlyDisallowsParams = .error .assertion := by
  have unknown : Registries.setup.payecs["x".toList]? = none := by simp [Registries.setup]
  have fresh : "x".toList ∉ Registries.setup.ecs.systems.map := by
    rw [registriesAgree_setup.names, not_or]
    exact ⟨by decide, by simp [Registries.setup]⟩
  have args : payecsNewsystemArgs onlyDisallowsParams = .ok ("x".toList, [], ["a".toList]) := rfl
  simp only [payecsNewsystem, args, payecsRegister_new unknown fresh]
  rfl

end Payz
