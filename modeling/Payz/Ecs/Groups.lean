import Payz.Top

/-! # The grammar of descriptors

Which arrays `ecs_register` takes: groups of descriptors, each with its `done`.  Between two
descriptors its four variables hold what was read of the group so far, and no more.
-/

namespace Payz

def namesOf (descs : List EcsRegisterDesc) : List Text :=
  descs.filterMap fun
    | .name name => some name
    | _ => none

def funcsOf (descs : List EcsRegisterDesc) : List EcsSystemFunction :=
  descs.filterMap fun
    | .func func => some func
    | _ => none

def requiresOf (descs : List EcsRegisterDesc) : List Text :=
  descs.filterMap fun
    | .require component => some component
    | _ => none

def disallowsOf (descs : List EcsRegisterDesc) : List Text :=
  descs.filterMap fun
    | .disallow component => some component
    | _ => none

/-- The descriptors of a group as far as it goes. -/
structure GroupPart (descs : List EcsRegisterDesc) : Prop where
  name : (namesOf descs).length ≤ 1
  func : (funcsOf descs).length ≤ 1
  require : ∀ front component back, descs = front ++ .require component :: back →
    namesOf front ≠ []
  disallow : ∀ front component back, descs = front ++ .disallow component :: back →
    namesOf front ≠ [] ∧ requiresOf front ≠ []
  notDone : .done ∉ descs
  notOver : .overAndOut ∉ descs

/-- A group, without its `done`. -/
structure RegisterGroup where
  descs : List EcsRegisterDesc
  name : Text
  part : GroupPart descs
  named : namesOf descs = [name]

namespace RegisterGroup

def func (group : RegisterGroup) : Option EcsSystemFunction := (funcsOf group.descs).head?

def system (group : RegisterGroup) : EcsysRegistered :=
  ⟨group.name, requiresOf group.descs, disallowsOf group.descs⟩

def wrapper (group : RegisterGroup) : Option EcsSystemWrapper :=
  group.func.map fun func => ⟨group.name, func, requiresOf group.descs⟩

/-- The groups as they stand in an array. -/
def flatten (groups : List RegisterGroup) : List EcsRegisterDesc :=
  groups.flatMap fun group => group.descs ++ [.done]

end RegisterGroup

/-- The descriptors are these groups, and their names are new and different. -/
structure Registers (ecs : Registry) (descs : List EcsRegisterDesc)
    (groups : List RegisterGroup) : Prop where
  split : descs = RegisterGroup.flatten groups
  distinct : (groups.map RegisterGroup.name).Nodup
  fresh : ∀ group ∈ groups, group.name ∉ ecs.systems.map

/-- What becomes of the registries: each group has its entries, whatever the others are, and
    nothing else has changed. -/
structure Registered (ecs : Registry) (groups : List RegisterGroup) (ecs' : Registry) : Prop where
  system : ∀ group ∈ groups, ecs'.systems.map[group.name]? = some group.system
  func : ∀ group ∈ groups, ecs'.systemFuncs[group.name]? = group.wrapper
  otherSystem : ∀ name ∉ groups.map RegisterGroup.name,
    ecs'.systems.map[name]? = ecs.systems.map[name]?
  otherFunc : ∀ name ∉ groups.map RegisterGroup.name, ecs'.systemFuncs[name]? = ecs.systemFuncs[name]?

/-- The registries that the program comes by, from `ecs_new` on. -/
inductive Registry.Reached : Registry → Prop where
  | new : Registry.empty.Reached
  | register {ecs ecs' : Registry} {toRegister : List EcsRegisterDesc} : ecs.Reached →
      ecsRegister ecs toRegister = .ok ecs' → ecs'.Reached

/-! ## The variables -/

/-- The variables of `ecs_register` after part of a group. -/
def varsOf (descs : List EcsRegisterDesc) : RegisterVars where
  name := (namesOf descs).head?
  func := (funcsOf descs).head?
  required := if requiresOf descs = [] then none else some (requiresOf descs)
  disallowed := if disallowsOf descs = [] then none else some (disallowsOf descs)

/-- What may follow in a group. -/
def EcsRegisterDesc.Follows (descs : List EcsRegisterDesc) : EcsRegisterDesc → Prop
  | .name _ => namesOf descs = []
  | .func _ => funcsOf descs = []
  | .require _ => namesOf descs ≠ []
  | .disallow _ => namesOf descs ≠ [] ∧ requiresOf descs ≠ []
  | .done => False
  | .overAndOut => False

@[simp] theorem namesOf_append (front back : List EcsRegisterDesc) :
    namesOf (front ++ back) = namesOf front ++ namesOf back := List.filterMap_append

@[simp] theorem funcsOf_append (front back : List EcsRegisterDesc) :
    funcsOf (front ++ back) = funcsOf front ++ funcsOf back := List.filterMap_append

@[simp] theorem requiresOf_append (front back : List EcsRegisterDesc) :
    requiresOf (front ++ back) = requiresOf front ++ requiresOf back := List.filterMap_append

@[simp] theorem disallowsOf_append (front back : List EcsRegisterDesc) :
    disallowsOf (front ++ back) = disallowsOf front ++ disallowsOf back := List.filterMap_append

theorem getD_none_of_nil {α : Type} (xs : List α) :
    (if xs = [] then none else some xs : Option (List α)).getD [] = xs := by
  split_ifs with none
  · exact none.symm
  · rfl

theorem append_cons_eq_concat {α : Type} {init front back : List α} {last x : α}
    (same : init ++ [last] = front ++ x :: back) :
    (front = init ∧ x = last) ∨ ∃ more, init = front ++ x :: more := by
  rcases List.eq_nil_or_concat back with rfl | ⟨more, final, rfl⟩
  · obtain ⟨rfl, single⟩ := List.append_inj' same rfl
    exact .inl ⟨rfl, (List.singleton_inj.mp single).symm⟩
  · refine .inr ⟨more, ?_⟩
    rw [List.concat_eq_append, ← List.cons_append, ← List.append_assoc] at same
    exact (List.append_inj' same rfl).1

theorem groupPart_nil : GroupPart [] where
  name := Nat.zero_le _
  func := Nat.zero_le _
  require front component back same := by simp at same
  disallow front component back same := by simp at same
  notDone := List.not_mem_nil
  notOver := List.not_mem_nil

theorem GroupPart.follows {front back : List EcsRegisterDesc} {desc : EcsRegisterDesc}
    (part : GroupPart (front ++ desc :: back)) : desc.Follows front := by
  have inside : desc ∈ front ++ desc :: back := List.mem_append_right _ List.mem_cons_self
  cases desc with
  | name name =>
      have one := part.name
      rw [namesOf_append, List.length_append] at one
      change _ + ((namesOf back).length + 1) ≤ 1 at one
      exact List.eq_nil_of_length_eq_zero (by omega)
  | func func =>
      have one := part.func
      rw [funcsOf_append, List.length_append] at one
      change _ + ((funcsOf back).length + 1) ≤ 1 at one
      exact List.eq_nil_of_length_eq_zero (by omega)
  | require component => exact part.require front component back rfl
  | disallow component => exact part.disallow front component back rfl
  | done => exact part.notDone inside
  | overAndOut => exact part.notOver inside

theorem GroupPart.concat {descs : List EcsRegisterDesc} {desc : EcsRegisterDesc}
    (part : GroupPart descs) (follows : desc.Follows descs) : GroupPart (descs ++ [desc]) where
  name := by
    rw [namesOf_append]
    cases desc with
    | name name => rw [show namesOf descs = [] from follows]; exact le_rfl
    | func | require | disallow | done | overAndOut => exact (List.append_nil _).symm ▸ part.name
  func := by
    rw [funcsOf_append]
    cases desc with
    | func func => rw [show funcsOf descs = [] from follows]; exact le_rfl
    | name | require | disallow | done | overAndOut => exact (List.append_nil _).symm ▸ part.func
  require front component back same := by
    rcases append_cons_eq_concat same with ⟨rfl, rfl⟩ | ⟨more, earlier⟩
    · exact follows
    · exact part.require front component more earlier
  disallow front component back same := by
    rcases append_cons_eq_concat same with ⟨rfl, rfl⟩ | ⟨more, earlier⟩
    · exact follows
    · exact part.disallow front component more earlier
  notDone member := by
    rcases List.mem_append.mp member with earlier | last
    · exact part.notDone earlier
    · cases List.mem_singleton.mp last
      exact follows
  notOver member := by
    rcases List.mem_append.mp member with earlier | last
    · exact part.notOver earlier
    · cases List.mem_singleton.mp last
      exact follows

theorem varsOf_concat (descs : List EcsRegisterDesc) (desc : EcsRegisterDesc) :
    varsOf (descs ++ [desc]) = {
      name := (namesOf descs ++ namesOf [desc]).head?
      func := (funcsOf descs ++ funcsOf [desc]).head?
      required := if requiresOf descs ++ requiresOf [desc] = [] then none
        else some (requiresOf descs ++ requiresOf [desc])
      disallowed := if disallowsOf descs ++ disallowsOf [desc] = [] then none
        else some (disallowsOf descs ++ disallowsOf [desc]) } := by
  rw [varsOf, namesOf_append, funcsOf_append, requiresOf_append, disallowsOf_append]

/-- The lists of the variables are those of the descriptors, with no list for an empty one. -/
theorem getD_varsOf_required (descs : List EcsRegisterDesc) :
    (varsOf descs).required.getD [] = requiresOf descs := getD_none_of_nil _

theorem getD_varsOf_disallowed (descs : List EcsRegisterDesc) :
    (varsOf descs).disallowed.getD [] = disallowsOf descs := getD_none_of_nil _

theorem isNone_varsOf_name {descs : List EcsRegisterDesc} :
    (varsOf descs).name.isNone = true ↔ namesOf descs = [] := by
  rw [Option.isNone_iff_eq_none, varsOf, List.head?_eq_none_iff]

theorem isNone_varsOf_required {descs : List EcsRegisterDesc} :
    (varsOf descs).required.isNone = true ↔ requiresOf descs = [] := by
  rw [Option.isNone_iff_eq_none, varsOf]
  dsimp only
  split_ifs with none <;> simp [none]

theorem ecsRegisterStep_varsOf (ecs : Registry) {descs : List EcsRegisterDesc}
    {desc : EcsRegisterDesc} (follows : desc.Follows descs) :
    ecsRegisterStep ecs (varsOf descs) desc = .ok (ecs, varsOf (descs ++ [desc])) := by
  rw [varsOf_concat]
  cases desc with
  | name name =>
      have none : namesOf descs = [] := follows
      have noFunc : funcsOf [.name name] = [] := rfl
      have noRequire : requiresOf [.name name] = [] := rfl
      have noDisallow : disallowsOf [.name name] = [] := rfl
      rw [ecsRegisterStep, if_neg (by simp [varsOf, none]), none, noFunc, noRequire, noDisallow]
      simp only [List.append_nil]
      rfl
  | func func =>
      have none : funcsOf descs = [] := follows
      have noName : namesOf [.func func] = [] := rfl
      have noRequire : requiresOf [.func func] = [] := rfl
      have noDisallow : disallowsOf [.func func] = [] := rfl
      rw [ecsRegisterStep, if_neg (by simp [varsOf, none]), none, noName, noRequire, noDisallow]
      simp only [List.append_nil]
      rfl
  | require component =>
      have noName : namesOf [.require component] = [] := rfl
      have noFunc : funcsOf [.require component] = [] := rfl
      have noDisallow : disallowsOf [.require component] = [] := rfl
      have added : requiresOf descs ++ requiresOf [.require component] ≠ [] := by
        simp [show requiresOf [.require component] = [component] from rfl]
      rw [ecsRegisterStep, if_neg (isNone_varsOf_name.not.mpr follows), if_neg added, noName,
        noFunc, noDisallow]
      simp only [List.append_nil]
      rw [getD_varsOf_required]
      rfl
  | disallow component =>
      have noName : namesOf [.disallow component] = [] := rfl
      have noFunc : funcsOf [.disallow component] = [] := rfl
      have noRequire : requiresOf [.disallow component] = [] := rfl
      have added : disallowsOf descs ++ disallowsOf [.disallow component] ≠ [] := by
        simp [show disallowsOf [.disallow component] = [component] from rfl]
      have both : ¬ ((varsOf descs).name.isNone || (varsOf descs).required.isNone) = true := by
        rw [Bool.or_eq_true, isNone_varsOf_name, isNone_varsOf_required, not_or]
        exact follows
      rw [ecsRegisterStep, if_neg both, if_neg added, noName, noFunc, noRequire]
      simp only [List.append_nil]
      rw [getD_varsOf_disallowed]
      rfl
  | done => exact follows.elim
  | overAndOut => exact follows.elim

theorem ecsRegisterStep_varsOf_error (ecs : Registry) {descs : List EcsRegisterDesc}
    {desc : EcsRegisterDesc} (inner : desc ≠ .done) (follows : ¬ desc.Follows descs) :
    ecsRegisterStep ecs (varsOf descs) desc = .error .assertion := by
  cases desc with
  | name name =>
      exact if_pos (List.isSome_head?.mpr follows)
  | func func => exact if_pos (List.isSome_head?.mpr follows)
  | require component => exact if_pos (isNone_varsOf_name.mpr (not_not.mp follows))
  | disallow component =>
      refine if_pos (Bool.or_eq_true_iff.mpr ?_)
      rw [isNone_varsOf_name, isNone_varsOf_required]
      by_contra neither
      exact follows (not_or.mp neither)
  | done => exact absurd rfl inner
  | overAndOut => rfl

/-! ## The groups of the built-in systems -/

theorem GroupPart.require_all {descs : List EcsRegisterDesc} (part : GroupPart descs)
    (named : namesOf descs ≠ []) (components : List Text) :
    GroupPart (descs ++ components.map .require) := by
  induction components generalizing descs with
  | nil => rwa [List.map_nil, List.append_nil]
  | cons component components ih =>
      rw [List.map_cons, List.append_cons]
      refine ih (part.concat named) ?_
      rw [namesOf_append]
      exact List.append_ne_nil_of_left_ne_nil named _

theorem GroupPart.disallow_all {descs : List EcsRegisterDesc} (part : GroupPart descs)
    (named : namesOf descs ≠ []) (required : requiresOf descs ≠ []) (components : List Text) :
    GroupPart (descs ++ components.map .disallow) := by
  induction components generalizing descs with
  | nil => rwa [List.map_nil, List.append_nil]
  | cons component components ih =>
      rw [List.map_cons, List.append_cons]
      refine ih (part.concat ⟨named, required⟩) ?_ ?_
      · rw [namesOf_append]
        exact List.append_ne_nil_of_left_ne_nil named _
      · rw [requiresOf_append]
        exact List.append_ne_nil_of_left_ne_nil required _

/-- The group that describes a built-in system. -/
def EcsSystemFunction.group (func : EcsSystemFunction) : RegisterGroup where
  descs := [.name func.name, .func func] ++ func.registered.requiredComponents.map .require ++
    func.registered.disallowedComponents.map .disallow
  name := func.name
  part := by
    have named : GroupPart [.name func.name] := groupPart_nil.concat rfl
    have start : GroupPart [.name func.name, .func func] := named.concat rfl
    refine (start.require_all (by cases func <;> decide) _).disallow_all ?_ ?_ _ <;>
      cases func <;> decide
  named := by cases func <;> decide

/-! ## The loop -/

/-- The registries with the entries of a group. -/
def RegisterGroup.addTo (ecs : Registry) (group : RegisterGroup) : Registry where
  systems := ecs.systems.insert group.system
  systemFuncs :=
    match group.wrapper with
    | none => ecs.systemFuncs
    | some wrapper => ecs.systemFuncs.insertIfNew group.name wrapper

/-- Register one group, if its name is new. -/
def RegisterGroup.register (ecs : Registry) (group : RegisterGroup) : Except Fault Registry :=
  if group.name ∈ ecs.systems.map then .error .eexist else .ok (group.addTo ecs)

theorem RegisterGroup.head?_names (group : RegisterGroup) :
    (varsOf group.descs).name = some group.name := by
  rw [varsOf, group.named, List.head?_cons]

theorem ecsRegisterOne_group (ecs : Registry) (group : RegisterGroup) :
    ecsRegisterOne ecs (varsOf group.descs) group.name = group.register ecs := by
  rw [ecsRegisterOne, ecsysRegister, getD_varsOf_required, getD_varsOf_disallowed,
    RegisterGroup.register]
  by_cases known : group.name ∈ ecs.systems.map
  · rw [if_pos known, if_pos known]
  · rw [if_neg known, if_neg known]
    cases func : group.func <;>
      simp only [RegisterGroup.addTo, RegisterGroup.wrapper, func, Option.map_none,
        Option.map_some, show (varsOf group.descs).func = group.func from rfl] <;> rfl

theorem ecsRegisterLoop_cons (ecs : Registry) (vars : RegisterVars) {desc : EcsRegisterDesc}
    (notOver : desc ≠ .overAndOut) (descs : List EcsRegisterDesc) :
    ecsRegisterLoop ecs vars (desc :: descs) =
      match ecsRegisterStep ecs vars desc with
      | .error fault => .error fault
      | .ok (ecs, vars) => ecsRegisterLoop ecs vars descs := by
  cases desc with
  | overAndOut => exact absurd rfl notOver
  | name | func | require | disallow | done => rfl

theorem EcsRegisterDesc.Follows.notOver {front : List EcsRegisterDesc} {desc : EcsRegisterDesc}
    (follows : desc.Follows front) : desc ≠ .overAndOut := by
  rintro rfl
  exact follows

theorem ecsRegisterLoop_part (ecs : Registry) (pre : List EcsRegisterDesc)
    {part : List EcsRegisterDesc}
    (grammar : GroupPart (pre ++ part)) (tail : List EcsRegisterDesc) :
    ecsRegisterLoop ecs (varsOf pre) (part ++ tail) =
      ecsRegisterLoop ecs (varsOf (pre ++ part)) tail := by
  induction part generalizing pre with
  | nil => rw [List.nil_append, List.append_nil]
  | cons desc part ih =>
      have follows := grammar.follows
      rw [List.append_cons] at grammar ⊢
      rw [List.cons_append, ecsRegisterLoop_cons ecs _ follows.notOver,
        ecsRegisterStep_varsOf ecs follows]
      exact ih _ grammar

theorem ecsRegisterLoop_group (ecs : Registry) (group : RegisterGroup)
    (tail : List EcsRegisterDesc) :
    ecsRegisterLoop ecs .clear (group.descs ++ .done :: tail) =
      (group.register ecs).bind fun ecs => ecsRegisterLoop ecs .clear tail := by
  have inner := ecsRegisterLoop_part ecs [] group.part (.done :: tail)
  rw [List.nil_append] at inner
  refine inner.trans ?_
  rw [ecsRegisterLoop_cons ecs _ (by simp), ecsRegisterStep, group.head?_names]
  dsimp only
  rw [ecsRegisterOne_group]
  cases group.register ecs <;> rfl

def registerGroups (ecs : Registry) (groups : List RegisterGroup) : Except Fault Registry :=
  groups.foldlM RegisterGroup.register ecs

theorem ecsRegisterLoop_flatten (ecs : Registry) (groups : List RegisterGroup)
    (tail : List EcsRegisterDesc) :
    ecsRegisterLoop ecs .clear (RegisterGroup.flatten groups ++ tail) =
      (registerGroups ecs groups).bind fun ecs => ecsRegisterLoop ecs .clear tail := by
  induction groups generalizing ecs with
  | nil => rfl
  | cons group groups ih =>
      rw [RegisterGroup.flatten, List.flatMap_cons, List.append_assoc, List.append_assoc,
        List.singleton_append, ecsRegisterLoop_group, registerGroups, List.foldlM_cons]
      cases group.register ecs with
      | error fault => rfl
      | ok ecs => exact ih ecs

theorem GroupPart.eq_nil_of_clear {part : List EcsRegisterDesc} (grammar : GroupPart part)
    (clear : varsOf part = .clear) : part = [] := by
  have names : namesOf part = [] := List.head?_eq_none_iff.mp (congrArg RegisterVars.name clear)
  have funcs : funcsOf part = [] := List.head?_eq_none_iff.mp (congrArg RegisterVars.func clear)
  have requires : [] = requiresOf part := by rw [← getD_varsOf_required, clear]; rfl
  have disallows : [] = disallowsOf part := by rw [← getD_varsOf_disallowed, clear]; rfl
  refine List.eq_nil_iff_forall_not_mem.mpr fun desc member => ?_
  cases desc with
  | name name =>
      have there : name ∈ namesOf part := List.mem_filterMap.mpr ⟨_, member, rfl⟩
      exact List.ne_nil_of_mem there names
  | func func =>
      have there : func ∈ funcsOf part := List.mem_filterMap.mpr ⟨_, member, rfl⟩
      exact List.ne_nil_of_mem there funcs
  | require component =>
      have there : component ∈ requiresOf part := List.mem_filterMap.mpr ⟨_, member, rfl⟩
      exact List.ne_nil_of_mem there requires.symm
  | disallow component =>
      have there : component ∈ disallowsOf part := List.mem_filterMap.mpr ⟨_, member, rfl⟩
      exact List.ne_nil_of_mem there disallows.symm
  | done => exact grammar.notDone member
  | overAndOut => exact grammar.notOver member

theorem ecsRegisterLoop_ok {ecs ecs' : Registry} {part descs rest : List EcsRegisterDesc}
    (grammar : GroupPart part) (inner : .overAndOut ∉ descs)
    (ok : ecsRegisterLoop ecs (varsOf part) (descs ++ .overAndOut :: rest) = .ok ecs') :
    ∃ groups, part ++ descs = RegisterGroup.flatten groups := by
  induction descs generalizing ecs part with
  | nil =>
      have clear : varsOf part = .clear := by
        by_contra open'
        rw [List.nil_append, ecsRegisterLoop, if_neg open'] at ok
        cases ok
      exact ⟨[], by rw [grammar.eq_nil_of_clear clear]; rfl⟩
  | cons desc descs ih =>
      rw [List.mem_cons, not_or] at inner
      rw [List.cons_append, ecsRegisterLoop_cons ecs _ (Ne.symm inner.1)] at ok
      by_cases done : desc = .done
      · subst done
        cases names : namesOf part with
        | nil =>
            rw [ecsRegisterStep, show (varsOf part).name = none from
              List.head?_eq_none_iff.mpr names] at ok
            cases ok
        | cons name more =>
            have one := grammar.name
            rw [names, List.length_cons] at one
            have single : namesOf part = [name] := by
              rw [names, List.eq_nil_of_length_eq_zero (by omega : more.length = 0)]
            let group : RegisterGroup := ⟨part, name, grammar, single⟩
            have step : ecsRegisterStep ecs (varsOf part) .done =
                (group.register ecs).map (·, .clear) := by
              rw [ecsRegisterStep, group.head?_names, ← ecsRegisterOne_group]
            rw [step] at ok
            cases registered : group.register ecs with
            | error fault =>
                rw [registered] at ok
                cases ok
            | ok next =>
                rw [registered] at ok
                obtain ⟨groups, split⟩ := ih groupPart_nil inner.2 ok
                refine ⟨group :: groups, ?_⟩
                rw [RegisterGroup.flatten, List.flatMap_cons, List.append_assoc]
                exact congrArg (part ++ .done :: ·) split
      · by_cases follows : desc.Follows part
        · rw [ecsRegisterStep_varsOf ecs follows] at ok
          obtain ⟨groups, split⟩ := ih (grammar.concat follows) inner.2 ok
          exact ⟨groups, by rw [List.append_cons, split]⟩
        · rw [ecsRegisterStep_varsOf_error ecs done follows] at ok
          cases ok

/-! ## What is registered -/

theorem RegisterGroup.mem_addTo {ecs : Registry} {group : RegisterGroup} {name : Text} :
    name ∈ (group.addTo ecs).systems.map ↔ name = group.name ∨ name ∈ ecs.systems.map := by
  rw [RegisterGroup.addTo, SystemMap.insert, Std.ExtTreeMap.mem_insert,
    Std.LawfulEqOrd.compare_eq_iff_eq]
  exact or_congr_left eq_comm

/-- Groups are registered if and only if their names are new and different. -/
theorem registerGroups_ok {ecs ecs' : Registry} {groups : List RegisterGroup} :
    registerGroups ecs groups = .ok ecs' ↔
      (groups.map RegisterGroup.name).Nodup ∧ (∀ group ∈ groups, group.name ∉ ecs.systems.map) ∧
        groups.foldl RegisterGroup.addTo ecs = ecs' := by
  induction groups generalizing ecs with
  | nil =>
      refine ⟨fun ok => ⟨List.nodup_nil, by simp, Except.ok.inj ok⟩, fun given => ?_⟩
      exact congrArg Except.ok given.2.2
  | cons group groups ih =>
      rw [registerGroups, List.foldlM_cons, RegisterGroup.register, List.map_cons, List.nodup_cons,
        List.forall_mem_cons, List.foldl_cons]
      by_cases known : group.name ∈ ecs.systems.map
      · rw [if_pos known]
        constructor
        · intro ok
          cases ok
        · intro given
          exact absurd known given.2.1.1
      · rw [if_neg known]
        refine Iff.trans (@ih (group.addTo ecs)) ?_
        have later : (∀ g ∈ groups, g.name ∉ (group.addTo ecs).systems.map) ↔
            group.name ∉ groups.map RegisterGroup.name ∧ ∀ g ∈ groups, g.name ∉ ecs.systems.map := by
          simp only [RegisterGroup.mem_addTo, not_or, List.mem_map, not_exists, not_and]
          exact forall₂_and
        rw [later]
        tauto

theorem RegisterGroup.systems_addTo (ecs : Registry) (group : RegisterGroup) (name : Text) :
    (group.addTo ecs).systems.map[name]? =
      if group.name = name then some group.system else ecs.systems.map[name]? := by
  simp only [RegisterGroup.addTo, SystemMap.insert, Std.ExtTreeMap.getElem?_insert,
    Std.LawfulEqOrd.compare_eq_iff_eq]
  rfl

theorem RegisterGroup.funcs_addTo {ecs : Registry} {group : RegisterGroup}
    (fresh : group.name ∉ ecs.systemFuncs) (name : Text) :
    (group.addTo ecs).systemFuncs[name]? =
      if group.name = name then group.wrapper else ecs.systemFuncs[name]? := by
  rw [RegisterGroup.addTo]
  cases group.wrapper with
  | none =>
      dsimp only
      split_ifs with same
      · rw [← same, Std.ExtTreeMap.getElem?_eq_none fresh]
      · rfl
  | some wrapper =>
      simp only [Std.ExtTreeMap.getElem?_insertIfNew, Std.LawfulEqOrd.compare_eq_iff_eq]
      split_ifs with both same same
      · rfl
      · exact absurd both.1 same
      · exact absurd ⟨same, fresh⟩ both
      · rfl

theorem RegisterGroup.mem_funcs_addTo {ecs : Registry} {group : RegisterGroup} {name : Text}
    (there : name ∈ (group.addTo ecs).systemFuncs) :
    name = group.name ∨ name ∈ ecs.systemFuncs := by
  rw [RegisterGroup.addTo] at there
  cases found : group.wrapper with
  | none =>
      simp only [found] at there
      exact .inr there
  | some wrapper =>
      simp only [found, Std.ExtTreeMap.mem_insertIfNew, Std.LawfulEqOrd.compare_eq_iff_eq] at there
      exact there.imp_left Eq.symm

theorem registered_foldl_addTo {ecs : Registry} {groups : List RegisterGroup}
    (distinct : (groups.map RegisterGroup.name).Nodup)
    (fresh : ∀ group ∈ groups, group.name ∉ ecs.systemFuncs) :
    Registered ecs groups (groups.foldl RegisterGroup.addTo ecs) := by
  induction groups generalizing ecs with
  | nil =>
      exact ⟨by simp, by simp, fun _ _ => rfl, fun _ _ => rfl⟩
  | cons group groups ih =>
      rw [List.map_cons, List.nodup_cons] at distinct
      rw [List.forall_mem_cons] at fresh
      have later : ∀ g ∈ groups, g.name ∉ (group.addTo ecs).systemFuncs := by
        intro g member there
        rcases RegisterGroup.mem_funcs_addTo there with same | old
        · exact distinct.1 (same ▸ List.mem_map_of_mem member)
        · exact fresh.2 g member old
      have rest := ih distinct.2 later
      rw [List.foldl_cons]
      constructor
      case system =>
        refine List.forall_mem_cons.mpr ⟨?_, rest.system⟩
        rw [rest.otherSystem _ distinct.1, RegisterGroup.systems_addTo, if_pos rfl]
      case func =>
        refine List.forall_mem_cons.mpr ⟨?_, rest.func⟩
        rw [rest.otherFunc _ distinct.1, RegisterGroup.funcs_addTo fresh.1, if_pos rfl]
      case otherSystem =>
        intro name other
        rw [List.map_cons, List.mem_cons, not_or] at other
        rw [rest.otherSystem _ other.2, RegisterGroup.systems_addTo, if_neg (Ne.symm other.1)]
      case otherFunc =>
        intro name other
        rw [List.map_cons, List.mem_cons, not_or] at other
        rw [rest.otherFunc _ other.2, RegisterGroup.funcs_addTo fresh.1, if_neg (Ne.symm other.1)]

theorem ecsRegister_flatten (ecs : Registry) (groups : List RegisterGroup)
    (rest : List EcsRegisterDesc) :
    ecsRegister ecs (RegisterGroup.flatten groups ++ .overAndOut :: rest) =
      registerGroups ecs groups := by
  rw [ecsRegister, ecsRegisterLoop_flatten]
  cases registerGroups ecs groups <;> rfl

/-- It ends without an assertion that fails on groups with new and different names, and on
    nothing else. -/
theorem ecsRegister_ok {ecs ecs' : Registry} {descs rest : List EcsRegisterDesc}
    (inner : .overAndOut ∉ descs) :
    ecsRegister ecs (descs ++ .overAndOut :: rest) = .ok ecs' ↔
      ∃ groups, Registers ecs descs groups ∧ groups.foldl RegisterGroup.addTo ecs = ecs' := by
  constructor
  · intro ok
    obtain ⟨groups, split⟩ := ecsRegisterLoop_ok groupPart_nil inner ok
    rw [List.nil_append] at split
    subst split
    rw [ecsRegister_flatten, registerGroups_ok] at ok
    exact ⟨groups, ⟨rfl, ok.1, ok.2.1⟩, ok.2.2⟩
  · rintro ⟨groups, ⟨rfl, distinct, fresh⟩, result⟩
    rw [ecsRegister_flatten, registerGroups_ok]
    exact ⟨distinct, fresh, result⟩

theorem overAndOut_mem_of_ok {ecs ecs' : Registry} {vars : RegisterVars}
    {descs : List EcsRegisterDesc} (ok : ecsRegisterLoop ecs vars descs = .ok ecs') :
    .overAndOut ∈ descs := by
  induction descs generalizing ecs vars with
  | nil => cases ok
  | cons desc descs ih =>
      by_cases last : desc = .overAndOut
      · exact last ▸ List.mem_cons_self
      · rw [ecsRegisterLoop_cons ecs vars last] at ok
        cases step : ecsRegisterStep ecs vars desc with
        | error fault =>
            rw [step] at ok
            cases ok
        | ok next =>
            rw [step] at ok
            exact List.mem_cons_of_mem _ (ih ok)

theorem mem_systems_foldl_addTo {ecs : Registry} {groups : List RegisterGroup}
    (subset : ∀ name ∈ ecs.systemFuncs, name ∈ ecs.systems.map) :
    ∀ name ∈ (groups.foldl RegisterGroup.addTo ecs).systemFuncs,
      name ∈ (groups.foldl RegisterGroup.addTo ecs).systems.map := by
  induction groups generalizing ecs with
  | nil => exact subset
  | cons group groups ih =>
      refine ih fun name there => RegisterGroup.mem_addTo.mpr ?_
      exact (RegisterGroup.mem_funcs_addTo there).imp_right (subset name)

theorem Registry.Reached.mem_systems {ecs : Registry} (reached : ecs.Reached) :
    ∀ name ∈ ecs.systemFuncs, name ∈ ecs.systems.map := by
  induction reached with
  | new => exact fun name there => absurd there Std.ExtTreeMap.not_mem_empty
  | register _ ok ih =>
      obtain ⟨descs, rest, rfl, inner⟩ := List.eq_append_cons_of_mem (overAndOut_mem_of_ok ok)
      obtain ⟨groups, -, rfl⟩ := (ecsRegister_ok inner).mp ok
      exact mem_systems_foldl_addTo ih

/-- `ecs_register` takes groups of descriptors with new and different names, and nothing
    else, and each group has the entries it describes. -/
theorem ecsRegister_grammar (ecs : Registry) (descs rest : List EcsRegisterDesc)
    (inner : .overAndOut ∉ descs) :
    ((∃ ecs', ecsRegister ecs (descs ++ .overAndOut :: rest) = .ok ecs') ↔
      ∃ groups, Registers ecs descs groups) ∧
    (ecs.Reached → ∀ groups, Registers ecs descs groups →
      ∃ ecs', ecsRegister ecs (descs ++ .overAndOut :: rest) = .ok ecs' ∧
        Registered ecs groups ecs') := by
  refine ⟨⟨?_, ?_⟩, ?_⟩
  · rintro ⟨ecs', ok⟩
    obtain ⟨groups, registers, -⟩ := (ecsRegister_ok inner).mp ok
    exact ⟨groups, registers⟩
  · rintro ⟨groups, registers⟩
    exact ⟨_, (ecsRegister_ok inner).mpr ⟨groups, registers, rfl⟩⟩
  · intro reached groups registers
    refine ⟨_, (ecsRegister_ok inner).mpr ⟨groups, registers, rfl⟩, ?_⟩
    refine registered_foldl_addTo registers.distinct fun group member there => ?_
    exact registers.fresh group member (reached.mem_systems _ there)

theorem ecsRegister_grammar_parse : ∃ ecs',
    ecsRegister .empty (EcsSystemFunction.parseInvoice.descs ++ [.overAndOut]) = .ok ecs' ∧
      Registered .empty [EcsSystemFunction.parseInvoice.group] ecs' :=
  (ecsRegister_grammar .empty EcsSystemFunction.parseInvoice.descs [] (by decide)).2 .new
    [EcsSystemFunction.parseInvoice.group]
    ⟨rfl, List.nodup_cons.mpr ⟨List.not_mem_nil, List.nodup_nil⟩,
      fun _ _ => Std.ExtTreeMap.not_mem_empty⟩

end Payz
