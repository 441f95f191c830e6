import Payz.Ecs.Ecsys

/-! # Registering systems

The registration half of `plugins/payz/ecs/ecs.c`.  Systems are described by an array of
descriptors that ends with `overAndOut`; `ecs_register` reads it with four variables
and asserts its grammar as it goes.
-/

namespace Payz

/-- The functions of the built-in systems. -/
inductive EcsSystemFunction where
  | generateNonce
  | parseInvoice
  | promoteInvoiceType
  | invoiceAmountMsat
  | failInvoiceAmountAndAmount
  | defaulterRiskfactor
  | defaulterMaxfeepercent
  | defaulterRetryFor
  | defaulterMaxdelay
  | defaulterExemptfee
  deriving Repr, DecidableEq

inductive EcsRegisterDesc where
  | name (name : Text)
  | func (func : EcsSystemFunction)
  | require (component : Text)
  | disallow (component : Text)
  | done
  | overAndOut
  deriving Repr, DecidableEq

structure EcsSystemWrapper where
  name : Text
  func : EcsSystemFunction
  required : List Text
  deriving Repr, DecidableEq

/-- What `struct ecs` and its `struct ecsys` know about systems. -/
structure Registry where
  systems : SystemMap
  systemFuncs : Std.ExtTreeMap Text EcsSystemWrapper

/-- `ecs_new`, as far as systems go. -/
def Registry.empty : Registry := ⟨.empty, ∅⟩

def SystemMap.insert (systems : SystemMap) (system : EcsysRegistered) : SystemMap where
  map := systems.map.insert system.system system
  keyed := by
    intro name found there
    rw [Std.ExtTreeMap.getElem?_insert] at there
    split_ifs at there with same
    · cases there
      exact Std.LawfulEqOrd.compare_eq_iff_eq.mp same
    · exact systems.keyed there

def ecsysRegister (systems : SystemMap) (system : Text) (required disallowed : List Text) :
    Except Fault SystemMap :=
  if system ∈ systems.map then .error .eexist
  else .ok (systems.insert ⟨system, required, disallowed⟩)

/-- The variables of `ecs_register`; an array that is `NULL` is `none`. -/
structure RegisterVars where
  name : Option Text
  func : Option EcsSystemFunction
  required : Option (List Text)
  disallowed : Option (List Text)
  deriving Repr, DecidableEq

def RegisterVars.clear : RegisterVars := ⟨none, none, none, none⟩

/-- The case `ECS_REGISTER_TYPE_DONE` of `ecs_register`. -/
def ecsRegisterOne (ecs : Registry) (vars : RegisterVars) (name : Text) : Except Fault Registry :=
  match ecsysRegister ecs.systems name (vars.required.getD []) (vars.disallowed.getD []) with
  | .error fault => .error fault
  | .ok systems =>
      .ok {
        systems := systems
        systemFuncs :=
          match vars.func with
          | none => ecs.systemFuncs
          | some func =>
              ecs.systemFuncs.insertIfNew name ⟨name, func, vars.required.getD []⟩ }

/-- One turn of the loop of `ecs_register`. -/
def ecsRegisterStep (ecs : Registry) (vars : RegisterVars) :
    EcsRegisterDesc → Except Fault (Registry × RegisterVars)
  | .name name =>
      if vars.name.isSome then .error .assertion else .ok (ecs, { vars with name := some name })
  | .func func =>
      if vars.func.isSome then .error .assertion else .ok (ecs, { vars with func := some func })
  | .require component =>
      if vars.name.isNone then .error .assertion
      else .ok (ecs, { vars with required := some (vars.required.getD [] ++ [component]) })
  | .disallow component =>
      if vars.name.isNone || vars.required.isNone then .error .assertion
      else .ok (ecs, { vars with disallowed := some (vars.disallowed.getD [] ++ [component]) })
  | .done =>
      match vars.name with
      | none => .error .assertion
      | some name => (ecsRegisterOne ecs vars name).map (·, .clear)
  | .overAndOut => .error .assertion

/-- The loop of `ecs_register`, and the assertions behind it. -/
def ecsRegisterLoop (ecs : Registry) (vars : RegisterVars) :
    List EcsRegisterDesc → Except Fault Registry
  | [] => .error .outOfBounds
  | .overAndOut :: _ => if vars = .clear then .ok ecs else .error .assertion
  | desc :: descs =>
      match ecsRegisterStep ecs vars desc with
      | .error fault => .error fault
      | .ok (ecs, vars) => ecsRegisterLoop ecs vars descs

def ecsRegister (ecs : Registry) (toRegister : List EcsRegisterDesc) : Except Fault Registry :=
  ecsRegisterLoop ecs .clear toRegister

def ecsRegisterBegin : List EcsRegisterDesc := [.overAndOut]

/-- `ecs_register_extend`: the last entry is overwritten, and put back behind. -/
def ecsRegisterExtend (array : List EcsRegisterDesc) (desc : EcsRegisterDesc) :
    List EcsRegisterDesc :=
  array.set (array.length - 1) desc ++ [.overAndOut]

/-- The copying loop of `ecs_register_concat`. -/
def ecsRegisterCopy : List EcsRegisterDesc → List EcsRegisterDesc
  | [] => []
  | .overAndOut :: _ => [.overAndOut]
  | desc :: descs => desc :: ecsRegisterCopy descs

def ecsRegisterConcat (array toAdd : List EcsRegisterDesc) : List EcsRegisterDesc :=
  match toAdd with
  | [] => array
  | .overAndOut :: _ => array
  | first :: rest => array.set (array.length - 1) first ++ ecsRegisterCopy rest

/-! ## Registering one system -/

theorem ecsRegisterExtend_eq (front : List EcsRegisterDesc) (desc : EcsRegisterDesc) :
    ecsRegisterExtend (front ++ [.overAndOut]) desc = front ++ [desc] ++ [.overAndOut] := by
  simp [ecsRegisterExtend]

theorem ecsRegisterLoop_require (ecs : Registry) (vars : RegisterVars)
    (name : vars.name.isSome) (components : List Text) (descs : List EcsRegisterDesc) :
    ecsRegisterLoop ecs vars (components.map .require ++ descs) =
      ecsRegisterLoop ecs { vars with
        required := if components = [] then vars.required
          else some (vars.required.getD [] ++ components) } descs := by
  induction components generalizing vars with
  | nil => simp
  | cons component components ih =>
      have named : vars.name.isNone = false := by
        cases h : vars.name <;> simp [h] at name ⊢
      simp only [List.map_cons, List.cons_append, ecsRegisterLoop, ecsRegisterStep, named,
        Bool.false_eq_true, if_false]
      rw [ih { vars with required := some (vars.required.getD [] ++ [component]) } name]
      by_cases last : components = [] <;> simp [last]

theorem ecsRegisterLoop_disallow (ecs : Registry) (vars : RegisterVars)
    (name : vars.name.isSome) (required : vars.required.isSome) (components : List Text)
    (descs : List EcsRegisterDesc) :
    ecsRegisterLoop ecs vars (components.map .disallow ++ descs) =
      ecsRegisterLoop ecs { vars with
        disallowed := if components = [] then vars.disallowed
          else some (vars.disallowed.getD [] ++ components) } descs := by
  induction components generalizing vars with
  | nil => simp
  | cons component components ih =>
      have named : vars.name.isNone = false := by
        cases h : vars.name <;> simp [h] at name ⊢
      have there : vars.required.isNone = false := by
        cases h : vars.required <;> simp [h] at required ⊢
      simp only [List.map_cons, List.cons_append, ecsRegisterLoop, ecsRegisterStep, named, there,
        Bool.or_false, Bool.false_eq_true, if_false]
      rw [ih { vars with disallowed := some (vars.disallowed.getD [] ++ [component]) } name required]
      by_cases last : components = [] <;> simp [last]

/-- The descriptors of one system without a function. -/
def systemDescs (name : Text) (required disallowed : List Text) : List EcsRegisterDesc :=
  .name name :: (required.map .require ++ (disallowed.map .disallow ++ [.done, .overAndOut]))

/-- Registering one system.  Disallowed components without a required one trip an
    assertion. -/
theorem ecsRegister_systemDescs (ecs : Registry) (name : Text) (required disallowed : List Text) :
    ecsRegister ecs (systemDescs name required disallowed) =
      if required = [] ∧ disallowed ≠ [] then .error .assertion
      else (ecsysRegister ecs.systems name required disallowed).map fun systems =>
        { ecs with systems := systems } := by
  have required_getD : ∀ components : List Text,
      (if components = [] then none else some ([] ++ components) : Option (List Text)).getD [] =
        components := by
    intro components
    by_cases empty : components = [] <;> simp [empty]
  simp only [ecsRegister, systemDescs, ecsRegisterLoop, ecsRegisterStep, RegisterVars.clear,
    Option.isSome_none, Bool.false_eq_true, if_false]
  rw [ecsRegisterLoop_require ecs _ rfl]
  have finish : ∀ vars : RegisterVars, vars.name = some name → vars.func = none →
      ecsRegisterLoop ecs vars [.done, .overAndOut] =
        (ecsysRegister ecs.systems name (vars.required.getD []) (vars.disallowed.getD [])).map
          fun systems => { ecs with systems := systems } := by
    intro vars named noFunc
    simp only [ecsRegisterLoop, ecsRegisterStep, named, ecsRegisterOne, noFunc]
    cases ecsysRegister ecs.systems name (vars.required.getD []) (vars.disallowed.getD []) <;> rfl
  cases disallowed with
  | nil =>
      simp only [List.map_nil, List.nil_append, ne_eq, not_true_eq_false, and_false, if_false]
      rw [finish _ rfl rfl]
      simp only [Option.getD_none, required_getD]
  | cons component disallowed =>
      cases required with
      | nil => simp [ecsRegisterLoop, ecsRegisterStep]
      | cons first required =>
          rw [ecsRegisterLoop_disallow ecs _ rfl (by simp), finish _ rfl rfl]
          simp

end Payz
