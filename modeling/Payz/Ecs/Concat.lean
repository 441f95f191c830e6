import Payz.Ecs.Groups

/-! # Arrays of descriptors

How arrays are put together before they are registered, `ecs_register_concat` and the calls
for single descriptors mixed at will, and what order the systems come in.
-/

namespace Payz

def ecsRegisterName (array : List EcsRegisterDesc) (name : Text) : List EcsRegisterDesc :=
  ecsRegisterExtend array (.name name)

def ecsRegisterFunc (array : List EcsRegisterDesc) (func : EcsSystemFunction) :
    List EcsRegisterDesc :=
  ecsRegisterExtend array (.func func)

def ecsRegisterRequire (array : List EcsRegisterDesc) (component : Text) : List EcsRegisterDesc :=
  ecsRegisterExtend array (.require component)

def ecsRegisterDisallow (array : List EcsRegisterDesc) (component : Text) : List EcsRegisterDesc :=
  ecsRegisterExtend array (.disallow component)

def ecsRegisterDone (array : List EcsRegisterDesc) : List EcsRegisterDesc :=
  ecsRegisterExtend array .done

/-- An array that ends.  What stands behind the first end is not looked at. -/
structure DescArray where
  descs : List EcsRegisterDesc
  ends : .overAndOut ∈ descs

/-- The descriptors in front of the end. -/
def DescArray.front (array : DescArray) : List EcsRegisterDesc :=
  array.descs.takeWhile (· ≠ .overAndOut)

/-- The descriptors are groups. -/
def DescArray.WellFormed (array : DescArray) : Prop :=
  ∃ groups, array.front = RegisterGroup.flatten groups

inductive RegisterCall where
  | concat (toAdd : DescArray)
  | name (system : Text)
  | func (function : EcsSystemFunction)
  | require (component : Text)
  | disallow (component : Text)
  | done

namespace RegisterCall

def call (array : List EcsRegisterDesc) : RegisterCall → List EcsRegisterDesc
  | .concat toAdd => ecsRegisterConcat array toAdd.descs
  | .name system => ecsRegisterName array system
  | .func function => ecsRegisterFunc array function
  | .require component => ecsRegisterRequire array component
  | .disallow component => ecsRegisterDisallow array component
  | .done => ecsRegisterDone array

def appended : RegisterCall → List EcsRegisterDesc
  | .concat toAdd => toAdd.front
  | .name system => [.name system]
  | .func function => [.func function]
  | .require component => [.require component]
  | .disallow component => [.disallow component]
  | .done => [.done]

def build (calls : List RegisterCall) : List EcsRegisterDesc := calls.foldl call ecsRegisterBegin

end RegisterCall

/-- The call of `ecsys_register` in a turn of `ecs_register`. -/
def ecsysRegisterCall (vars : RegisterVars) : EcsRegisterDesc → List EcsysRegistered
  | .done => vars.name.toList.map fun name =>
      ⟨name, vars.required.getD [], vars.disallowed.getD []⟩
  | _ => []

/-- The calls of `ecsys_register` in the loop of `ecs_register`, in their order. -/
def ecsysRegisterCalls (ecs : Registry) (vars : RegisterVars) :
    List EcsRegisterDesc → List EcsysRegistered
  | [] => []
  | desc :: descs =>
      ecsysRegisterCall vars desc ++
        match ecsRegisterStep ecs vars desc with
        | .error _ => []
        | .ok (ecs, vars) => ecsysRegisterCalls ecs vars descs

/-! ## Appending -/

theorem DescArray.split (array : DescArray) :
    .overAndOut ∉ array.front ∧ ∃ rest, array.descs = array.front ++ .overAndOut :: rest := by
  obtain ⟨front, rest, whole, inner⟩ := List.eq_append_cons_of_mem array.ends
  have same : array.front = front := by
    rw [DescArray.front, whole, List.takeWhile_append_of_pos, List.takeWhile_cons_of_neg,
      List.append_nil]
    · simp
    · exact fun desc member => decide_eq_true fun same => inner (same ▸ member)
  rw [same]
  exact ⟨inner, rest, whole⟩

theorem ecsRegisterCopy_eq {front : List EcsRegisterDesc} (inner : .overAndOut ∉ front)
    (rest : List EcsRegisterDesc) :
    ecsRegisterCopy (front ++ .overAndOut :: rest) = front ++ [.overAndOut] := by
  induction front with
  | nil => rfl
  | cons desc front ih =>
      rw [List.mem_cons, not_or] at inner
      rw [List.cons_append, ecsRegisterCopy, ih inner.2, List.cons_append]
      exact fun same => inner.1 same.symm

theorem ecsRegisterConcat_eq (init : List EcsRegisterDesc) (toAdd : DescArray) :
    ecsRegisterConcat (init ++ [.overAndOut]) toAdd.descs =
      init ++ toAdd.front ++ [.overAndOut] := by
  obtain ⟨inner, rest, whole⟩ := toAdd.split
  rw [whole]
  cases front : toAdd.front with
  | nil => rw [List.append_nil]; rfl
  | cons first front' =>
      rw [front, List.mem_cons, not_or] at inner
      rw [List.cons_append, ecsRegisterConcat, ecsRegisterCopy_eq inner.2]
      · simp
      · exact fun same => inner.1 same.symm

theorem RegisterCall.call_eq (init : List EcsRegisterDesc) (call : RegisterCall) :
    call.call (init ++ [.overAndOut]) = init ++ call.appended ++ [.overAndOut] := by
  cases call with
  | concat toAdd => exact ecsRegisterConcat_eq init toAdd
  | name | func | require | disallow | done => exact ecsRegisterExtend_eq init _

theorem RegisterCall.overAndOut_not_mem_appended (call : RegisterCall) :
    .overAndOut ∉ call.appended := by
  cases call with
  | concat toAdd => exact toAdd.split.1
  | name | func | require | disallow | done => simp [appended]

theorem RegisterCall.foldl_call (init : List EcsRegisterDesc) (calls : List RegisterCall) :
    calls.foldl RegisterCall.call (init ++ [.overAndOut]) =
      init ++ calls.flatMap RegisterCall.appended ++ [.overAndOut] := by
  induction calls generalizing init with
  | nil => rw [List.flatMap_nil, List.append_nil]; rfl
  | cons call calls ih =>
      rw [List.foldl_cons, RegisterCall.call_eq, ih, List.flatMap_cons, List.append_assoc init]

theorem RegisterCall.build_eq (calls : List RegisterCall) :
    RegisterCall.build calls = calls.flatMap RegisterCall.appended ++ [.overAndOut] :=
  RegisterCall.foldl_call [] calls

/-! ## Registering what was put together -/

theorem DescArray.ecsRegister_eq (array : DescArray) {groups : List RegisterGroup}
    (split : array.front = RegisterGroup.flatten groups) (ecs : Registry) :
    ecsRegister ecs array.descs = registerGroups ecs groups := by
  obtain ⟨-, rest, whole⟩ := array.split
  rw [whole, split, ecsRegister_flatten]

theorem ecsRegister_build_concat (ecs : Registry) {arrays : List DescArray}
    (grammar : ∀ array ∈ arrays, array.WellFormed) :
    ecsRegister ecs (RegisterCall.build (arrays.map .concat)) =
      arrays.foldlM (fun ecs array => ecsRegister ecs array.descs) ecs := by
  rw [RegisterCall.build_eq, ecsRegister]
  induction arrays generalizing ecs with
  | nil => rfl
  | cons array arrays ih =>
      rw [List.forall_mem_cons] at grammar
      obtain ⟨groups, split⟩ := grammar.1
      rw [List.map_cons, List.flatMap_cons, List.append_assoc, RegisterCall.appended, split,
        ecsRegisterLoop_flatten, List.foldlM_cons, array.ecsRegister_eq split]
      cases registerGroups ecs groups with
      | error fault => rfl
      | ok ecs => exact ih ecs grammar.2

/-! ## The order of the systems -/

theorem extractNames_eq {front : List EcsRegisterDesc} (inner : .overAndOut ∉ front)
    (rest : List EcsRegisterDesc) :
    extractNames (front ++ .overAndOut :: rest) = namesOf front := by
  induction front with
  | nil => rfl
  | cons desc front ih =>
      rw [List.mem_cons, not_or] at inner
      have later := ih inner.2
      cases desc with
      | name name => exact congrArg (name :: ·) later
      | overAndOut => exact absurd rfl inner.1
      | func | require | disallow | done => exact later

theorem namesOf_flatten (groups : List RegisterGroup) :
    namesOf (RegisterGroup.flatten groups) = groups.map RegisterGroup.name := by
  induction groups with
  | nil => rfl
  | cons group groups ih =>
      rw [RegisterGroup.flatten, List.flatMap_cons, namesOf_append, namesOf_append, group.named,
        List.map_cons]
      exact congrArg (group.name :: ·) ih

theorem EcsRegisterDesc.Follows.no_call {front : List EcsRegisterDesc} {desc : EcsRegisterDesc}
    (follows : desc.Follows front) (vars : RegisterVars) : ecsysRegisterCall vars desc = [] := by
  cases desc with
  | done => exact follows.elim
  | name | func | require | disallow | overAndOut => rfl

theorem ecsysRegisterCalls_part (ecs : Registry) (pre : List EcsRegisterDesc)
    {part : List EcsRegisterDesc}
    (grammar : GroupPart (pre ++ part)) (tail : List EcsRegisterDesc) :
    ecsysRegisterCalls ecs (varsOf pre) (part ++ tail) =
      ecsysRegisterCalls ecs (varsOf (pre ++ part)) tail := by
  induction part generalizing pre with
  | nil => rw [List.nil_append, List.append_nil]
  | cons desc part ih =>
      have follows := grammar.follows
      rw [List.append_cons] at grammar ⊢
      rw [List.cons_append, ecsysRegisterCalls, follows.no_call, List.nil_append,
        ecsRegisterStep_varsOf ecs follows]
      exact ih _ grammar

theorem ecsysRegisterCall_group (group : RegisterGroup) :
    ecsysRegisterCall (varsOf group.descs) .done = [group.system] := by
  rw [ecsysRegisterCall, group.head?_names, getD_varsOf_required, getD_varsOf_disallowed]
  rfl

theorem ecsysRegisterCalls_flatten {ecs ecs' : Registry} {groups : List RegisterGroup}
    (ok : registerGroups ecs groups = .ok ecs') (rest : List EcsRegisterDesc) :
    ecsysRegisterCalls ecs .clear (RegisterGroup.flatten groups ++ .overAndOut :: rest) =
      groups.map RegisterGroup.system := by
  induction groups generalizing ecs with
  | nil => rfl
  | cons group groups ih =>
      have inner := ecsysRegisterCalls_part ecs [] group.part
        ([.done] ++ (RegisterGroup.flatten groups ++ .overAndOut :: rest))
      rw [RegisterGroup.flatten, List.flatMap_cons, List.append_assoc, List.append_assoc]
      refine inner.trans ?_
      rw [List.nil_append, List.singleton_append, ecsysRegisterCalls, ecsysRegisterCall_group,
        ecsRegisterStep, group.head?_names]
      dsimp only
      rw [ecsRegisterOne_group]
      rw [registerGroups, List.foldlM_cons] at ok
      cases registered : group.register ecs with
      | error fault =>
          rw [registered] at ok
          cases ok
      | ok next =>
          rw [registered] at ok
          exact congrArg (group.system :: ·) (ih ok)

theorem mem_foldl_addTo {ecs : Registry} {groups : List RegisterGroup} {name : Text} :
    name ∈ (groups.foldl RegisterGroup.addTo ecs).systems.map ↔
      name ∈ ecs.systems.map ∨ name ∈ groups.map RegisterGroup.name := by
  induction groups generalizing ecs with
  | nil => simp
  | cons group groups ih =>
      rw [List.foldl_cons, ih, RegisterGroup.mem_addTo, List.map_cons, List.mem_cons]
      tauto

/-- The names that `setup_payz_top` scans are the systems that are registered, in the order
    of the calls of `ecsys_register`. -/
theorem DescArray.extractNames_eq (array : DescArray) {ecs ecs' : Registry}
    (ok : ecsRegister ecs array.descs = .ok ecs') :
    extractNames array.descs =
        (ecsysRegisterCalls ecs .clear array.descs).map EcsysRegistered.system ∧
      ∀ name, name ∈ ecs'.systems.map ↔
        name ∈ ecs.systems.map ∨ name ∈ extractNames array.descs := by
  obtain ⟨inner, rest, whole⟩ := array.split
  rw [whole] at ok ⊢
  obtain ⟨groups, registers, rfl⟩ := (ecsRegister_ok inner).mp ok
  rw [Payz.extractNames_eq inner, registers.split] at *
  rw [ecsRegister_flatten] at ok
  rw [namesOf_flatten, ecsysRegisterCalls_flatten ok, List.map_map]
  exact ⟨rfl, fun name => mem_foldl_addTo⟩

/-! ## The array of `setup_payz_top` -/

theorem payzTopDescs_eq :
    payzTopDescs = RegisterGroup.flatten (builtins.map EcsSystemFunction.group) ++ [.overAndOut] :=
  rfl

def payzTopArray : DescArray where
  descs := payzTopDescs
  ends := by
    rw [payzTopDescs_eq]
    exact List.mem_append_right _ List.mem_cons_self

/-- Each built-in system has the entries that its group describes. -/
theorem registered_builtins :
    Registered .empty (builtins.map EcsSystemFunction.group) builtinRegistry := by
  have ok := setupPayzTop_eq
  rw [setupPayzTop, payzTopDescs_eq, ecsRegister_flatten, registerGroups_ok] at ok
  obtain ⟨distinct, -, result⟩ := ok
  rw [← result]
  exact registered_foldl_addTo distinct fun _ _ => Std.ExtTreeMap.not_mem_empty

/-- Arrays of descriptors concatenate: they end once, hold what was appended, and are
    registered as the arrays they were put together from, in the order of their names. -/
theorem descriptors_concatenate :
    (∀ calls, RegisterCall.build calls = calls.flatMap RegisterCall.appended ++ [.overAndOut] ∧
      .overAndOut ∉ calls.flatMap RegisterCall.appended) ∧
    (∀ (ecs : Registry) (arrays : List DescArray), (∀ array ∈ arrays, array.WellFormed) →
      ecsRegister ecs (RegisterCall.build (arrays.map .concat)) =
        arrays.foldlM (fun ecs array => ecsRegister ecs array.descs) ecs) ∧
    (∀ (ecs ecs' : Registry) (array : DescArray), ecsRegister ecs array.descs = .ok ecs' →
      extractNames array.descs =
          (ecsysRegisterCalls ecs .clear array.descs).map EcsysRegistered.system ∧
        ∀ name, name ∈ ecs'.systems.map ↔
          name ∈ ecs.systems.map ∨ name ∈ extractNames array.descs) ∧
    defaultSystems =
      (ecsysRegisterCalls .empty .clear payzTopDescs).map EcsysRegistered.system := by
  refine ⟨fun calls => ⟨RegisterCall.build_eq calls, ?_⟩, ?_, ?_, ?_⟩
  · rw [List.mem_flatMap]
    rintro ⟨call, -, member⟩
    exact call.overAndOut_not_mem_appended member
  · exact fun ecs arrays grammar => ecsRegister_build_concat ecs grammar
  · exact fun ecs ecs' array ok => array.extractNames_eq ok
  · exact (payzTopArray.extractNames_eq setupPayzTop_eq).1

end Payz
