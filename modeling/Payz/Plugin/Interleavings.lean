import Payz.Plugin.Steps

/-! # Notifications that arrive late

A system is matched when its notification is raised; its function runs when lightningd
has handed the notification back, without looking at the table again.  In between
clients may write, advance the entity once more, and other notifications may arrive.
-/

namespace Payz

open Runs

theorem Plugin.ok_of_run {blocks : Nat} {p p' : Plugin} {labels : List Label} (ok : p.Ok blocks)
    (run : Run Plugin.Step p labels p') : p'.Ok blocks := by
  have one : ∀ p label p', True → Plugin.Ok blocks p → Plugin.Step p label p' →
      Plugin.Ok blocks p' := fun _ _ _ _ ok step => ok.step step
  exact run.keeps one (fun _ _ => trivial) ok

/-- What is on its way was so before the step, or is raised by it. -/
theorem Plugin.Ok.mem_notifications {blocks : Nat} {p p' : Plugin} {label : Label}
    (ok : p.Ok blocks) (step : p.Step label p') {n : Notification}
    (member : n ∈ p'.notifications) : n ∈ p.notifications ∨ n ∈ label.output.raised := by
  obtain ⟨event, output⟩ := label
  rcases ok.step_cases step with ⟨q, entity, effect, acts, took⟩ | ⟨-, settles⟩
  · cases took
    rcases List.mem_append.mp member with old | new
    · exact .inl (acts.mem_of_mem old)
    · exact .inr new
  · cases settles with
    | wrote | registered | refused => exact .inl member
    | passed => exact .inl (List.mem_of_mem_erase member)

theorem Plugin.Ok.raised_current {blocks : Nat} {p p' : Plugin} {label : Label}
    (ok : p.Ok blocks) (step : p.Step label p') {n : Notification}
    (member : n ∈ label.output.raised) : n.Current p'.regs.ecs.systems p'.ec := by
  obtain ⟨event, output⟩ := label
  rcases ok.step_cases step with ⟨q, entity, effect, acts, took⟩ | ⟨silent, -⟩
  · cases took
    rcases effect.outcome_cases p.regs.ecs.systems p.ec entity with
      ⟨none, -⟩ | ⟨n', one, -, -, current⟩
    · simp only [none] at member
      cases member
    · simp only [one, List.mem_singleton] at member
      subst member
      simpa [Plugin.take, acts.same.1] using current
  · rw [silent] at member
    cases member

theorem Notification.Current.called {regs regs' : Registries} (agree : RegistriesAgree regs)
    (agree' : RegistriesAgree regs') {ec : Ec} {n : Notification}
    (current : n.Current regs.ecs.systems ec) (data : ec.All Json.WellFormed)
    {func : EcsSystemFunction} {entity : UInt32} {eo : Json}
    (call : ecsSystemCalled regs'.ecs n = some (func, entity, eo)) :
    n.entity = entity ∧ Matches ec entity func.registered ∧
      n = runSystem ec entity func.registered := by
  obtain ⟨system, registered, hit, same⟩ := current
  by_cases builtin : ∃ other : EcsSystemFunction, n.system = other.name
  · obtain ⟨other, name⟩ := builtin
    rw [name, agree.builtins.systems] at registered
    cases registered
    rw [same, ecsSystemCalled_builtin agree'.builtins data] at call
    cases call
    exact ⟨rfl, hit, same⟩
  · rw [ecsSystemCalled_other agree'.builtins (not_exists.mp builtin)] at call
    cases call

/-- Between two states of a run a component of an entity is attached, or detached. -/
def Changes (v : Plugin) (rest : List Label) (p : Plugin) (entity : UInt32) (component : Text)
    (toAttached : Bool) : Prop :=
  ∃ u label w last, Within Plugin.Step v rest p u label w last ∧
    (u.ec.cell entity component).isSome = !toAttached ∧
    (w.ec.cell entity component).isSome = toAttached

theorem changes_of_ne {v p : Plugin} {rest : List Label} (run : Run Plugin.Step v rest p)
    {entity : UInt32} {component : Text} {toAttached : Bool}
    (before : (v.ec.cell entity component).isSome = !toAttached)
    (after : (p.ec.cell entity component).isSome = toAttached) :
    Changes v rest p entity component toAttached := by
  have differs : ¬ (v.ec.cell entity component).isSome = toAttached := by
    rw [before]
    exact Bool.not_not_eq.mpr rfl
  obtain ⟨u, label, w, last, within, not, now⟩ := run.crossing
    (P := fun q => (q.ec.cell entity component).isSome = toAttached) differs after
  exact ⟨u, label, w, last, within, Bool.eq_not.mpr not, now⟩

/-- In any interleaving: when a notification was last raised its system matched.  If at
    the call a required component is missing, or a disallowed one attached, then it was
    detached, or attached, by a step in between. -/
theorem notified_system_matched {blocks : Nat} {labels : List Label} {p p' : Plugin}
    (run : Run Plugin.Step (.init (.primitive (formatU blocks))) labels p) {n : Notification}
    {nonce : Nonce} {output : Output} (step : p.Step ⟨.notify n nonce, output⟩ p')
    {func : EcsSystemFunction} {entity : UInt32} {eo : Json}
    (call : ecsSystemCalled p.regs.ecs n = some (func, entity, eo)) :
    ∃ u label v rest, Within Plugin.Step (.init (.primitive (formatU blocks))) labels p u label v
        rest ∧ n ∈ label.output.raised ∧ (∀ later ∈ rest, n ∉ later.output.raised) ∧
      Matches v.ec entity func.registered ∧
      ((∀ component ∈ func.registered.requiredComponents ++ func.registered.disallowedComponents,
        ∀ toAttached, ¬ Changes v rest p entity component toAttached) →
          Matches p.ec entity func.registered) ∧
      (∀ component ∈ func.registered.requiredComponents, p.ec.cell entity component = none →
        Changes v rest p entity component false) ∧
      ∀ component ∈ func.registered.disallowedComponents, (p.ec.cell entity component).isSome →
        Changes v rest p entity component true := by
  have start := Plugin.ok_init blocks
  have ok := Plugin.ok_of_run start run
  have raised : ∃ label ∈ labels, n ∈ label.output.raised := by
    have none : n ∉ (Plugin.init (.primitive (formatU blocks))).notifications := by
      simp [Plugin.init]
    obtain ⟨u, label, v, rest, within, absent, there⟩ :=
      run.crossing (P := fun q => n ∈ q.notifications) none step.1
    obtain ⟨first, split, before⟩ := within.split
    have new := ((Plugin.ok_of_run start before).mem_notifications within.takes there).resolve_left
      absent
    exact ⟨label, by simp [split], new⟩
  obtain ⟨u, label, v, rest, within, here, later⟩ := run.last raised
  obtain ⟨first, split, before⟩ := within.split
  have okBefore := Plugin.ok_of_run start before
  have okThen := okBefore.step within.takes
  have current := okBefore.raised_current within.takes here
  obtain ⟨-, hit, -⟩ := current.called okThen.agree ok.agree okThen.data call
  have detached : ∀ component ∈ func.registered.requiredComponents,
      p.ec.cell entity component = none → Changes v rest p entity component false := by
    intro component member absent
    refine changes_of_ne within.after ?_ (by simp [absent])
    simpa using hit.required component member
  have attached : ∀ component ∈ func.registered.disallowedComponents,
      (p.ec.cell entity component).isSome → Changes v rest p entity component true := by
    intro component member there
    refine changes_of_ne within.after ?_ there
    simp [hit.disallowed component member]
  refine ⟨u, label, v, rest, within, here, later, hit, fun unchanged => ?_, detached, attached⟩
  refine ⟨hit.nonempty, fun component member => ?_, fun component member => ?_⟩
  · rw [Option.isSome_iff_ne_none]
    exact fun absent => unchanged component (List.mem_append_left _ member) false
      (detached component member absent)
  · rw [← Option.not_isSome_iff_eq_none]
    exact fun there => unchanged component (List.mem_append_right _ member) true
      (attached component member there)

/-! ## A nonce that is overwritten -/

/-- A list of one system. -/
def oneSystem (func : EcsSystemFunction) : Json :=
  .tight [("systems".toList, stringArray [func.name])]

/-- Attach it to entity 1, and some other components. -/
def systemParams (func : EcsSystemFunction) (others : List (Text × Json)) : Json :=
  .tight [("writes".toList, .tight (("entity".toList, .primitive "1".toList) ::
    ("lightningd:systems".toList, oneSystem func) :: others))]

def nonceComp : Text := "lightningd:nonce".toList

/-- Entity 1 is left to one system, and waits for it. -/
structure Awaits (func : EcsSystemFunction) (p : Plugin) : Prop where
  ok : p.Ok 2016
  named : NamesSystems p.ec 1 [func.name]
  hit : Matches p.ec 1 func.registered

theorem oneSystem_wellFormed (func : EcsSystemFunction) : (oneSystem func).WellFormed := by
  have key : StringText "systems".toList := .of_plain rfl
  exact .tight (List.forall_mem_singleton.mpr key)
    (List.forall_mem_singleton.mpr (stringArray_wellFormed _))

theorem systemParams_wellFormed (func : EcsSystemFunction) {others : List (Text × Json)}
    (keys : ∀ m ∈ others, StringText m.1) (values : ∀ m ∈ others, m.2.WellFormed) :
    (systemParams func others).WellFormed := by
  have writes : StringText "writes".toList := .of_plain rfl
  have entity : StringText "entity".toList := .of_plain rfl
  have systems : StringText "lightningd:systems".toList := .of_plain rfl
  refine .tight (List.forall_mem_singleton.mpr writes) (List.forall_mem_singleton.mpr ?_)
  exact .tight
    (List.forall_mem_cons.mpr ⟨entity, List.forall_mem_cons.mpr ⟨systems, keys⟩⟩)
    (List.forall_mem_cons.mpr ⟨.formatU 1,
      List.forall_mem_cons.mpr ⟨oneSystem_wellFormed func, values⟩⟩)

theorem oneSystem_names (func : EcsSystemFunction) :
    ((oneSystem func).jsonGetMember "systems".toList).bind jsonToArrayOfStrings =
      some [func.name] := by
  cases func <;> decide +kernel

/-- The write goes through, and the entity waits for the system. -/
theorem Awaits.start {func : EcsSystemFunction} {others : List (Text × Json)}
    (keys : ∀ m ∈ others, StringText m.1) (values : ∀ m ∈ others, m.2.WellFormed) {ec : Ec}
    (ran : payecsSetcomponents ecNew (systemParams func others) = .ok (ec, .success []))
    (current : ec.current 1 syscomp = oneSystem func) (hit : Matches ec 1 func.registered) :
    ∃ p, (Plugin.init (.primitive (formatU 2016))).Step
        ⟨.setcomponents (systemParams func others), ⟨[], none⟩⟩ p ∧ Awaits func p ∧
      p.notifications = [] ∧ p.requests = [] := by
  have step : (Plugin.init (.primitive (formatU 2016))).Step
      ⟨.setcomponents (systemParams func others), ⟨[], none⟩⟩
      { Plugin.init (.primitive (formatU 2016)) with ec := ec } := by
    refine ⟨systemParams_wellFormed func keys values, ?_⟩
    rw [Plugin.step, Plugin.init, ran]
    rfl
  refine ⟨_, step, ⟨(Plugin.ok_init 2016).step step, ?_, hit⟩, rfl, rfl⟩
  rw [namesSystems_iff_member, current]
  exact oneSystem_names func

theorem awaitsNonce_start :
    ∃ p, (Plugin.init (.primitive (formatU 2016))).Step
        ⟨.setcomponents (systemParams .generateNonce []), ⟨[], none⟩⟩ p ∧
      Awaits .generateNonce p ∧ p.notifications = [] ∧ p.requests = [] := by
  have ran : payecsSetcomponents ecNew (systemParams .generateNonce []) =
      .ok (ecNew.setAll 1 [(syscomp, oneSystem .generateNonce)], .success []) := rfl
  refine Awaits.start (by simp) (by simp) ran rfl ?_
  rw [@matches_single _ _ _ syscomp nonceComp rfl rfl]
  exact ⟨rfl, rfl⟩

/-- An advance raises a notification, and the system is still waited for. -/
theorem Awaits.advance {func : EcsSystemFunction} {p : Plugin} (awaits : Awaits func p) :
    ∃ n p', p.Step ⟨.advance (entityParams 1), ⟨[n], none⟩⟩ p' ∧ Awaits func p' ∧
      p'.notifications = p.notifications ++ [n] ∧ p'.requests = p.requests ∧
      n = runSystem p'.ec 1 func.registered := by
  have found : searchSystem p.regs.ecs.systems p.ec 1 0 [func.name] = .found 0 func.registered :=
    @searchSystem_found _ _ _ [] _ _ (by simp) (awaits.ok.agree.builtins.systems func) awaits.hit []
  have spec : advanceSpec p.regs.ecs.systems p.ec 1 = ⟨afterCurrent p.ec 1 0,
      [runSystem (afterCurrent p.ec 1 0) 1 func.registered], none⟩ := by
    simp only [advanceSpec, (namesSystems_iff _ _ _).mpr awaits.named, found]
  obtain ⟨reply, advanced⟩ := payecsAdvance_eq p.regs.ecs.systems awaits.ok.data
    (payecsAdvanceArgs_entityParams 1)
  have named := @namesSystems_advanceSpec p.regs.ecs.systems _ _ _ awaits.named
  have attached := @isSome_cell_advanceSpec p.regs.ecs.systems _ _ _ awaits.named
  rw [spec] at advanced named attached
  have ran : p.Step ⟨.advance (entityParams 1), ⟨_, none⟩⟩ _ :=
    ⟨entityParams_wellFormed 1, by rw [Plugin.step, advanced]; rfl⟩
  have hit : Matches (afterCurrent p.ec 1 0) 1 func.registered :=
    awaits.hit.congr fun component _ => attached component
  exact ⟨_, _, ran, ⟨awaits.ok.step ran, named, hit⟩, rfl, by simp, rfl⟩

/-- The delivery of a notification runs the function of its system. -/
theorem Plugin.Ok.delivers {blocks : Nat} {p : Plugin} (ok : p.Ok blocks) {n : Notification}
    (member : n ∈ p.notifications) {earlier : Ec} (data : earlier.All Json.WellFormed)
    {func : EcsSystemFunction} {entity : UInt32} (hit : Matches earlier entity func.registered)
    (same : n = runSystem earlier entity func.registered) (nonce : Nonce) :
    ∃ output q p', p.Step ⟨.notify n nonce, output⟩ p' ∧
      p.Acts blocks (.notify n nonce) q entity
        (func.effect nonce blocks (earlier.current entity)) ∧
      p' = (q.take ((func.effect nonce blocks (earlier.current entity)).outcome
        p.regs.ecs.systems p.ec entity)).1 := by
  obtain rfl : n.entity = entity := by
    rw [same]
    rfl
  have called := ecsSystemDeliver_builtin ok.agree.builtins nonce blocks ok.data data n.entity func
  rw [← same, ← ok.maxdelay] at called
  exact ⟨_, _, _, ⟨member, by rw [Plugin.step, called]; rfl⟩, .notify member data hit same, rfl⟩

theorem Plugin.Acts.notifications {blocks : Nat} {p q : Plugin} {n : Notification} {nonce : Nonce}
    {entity : UInt32} {effect : Effect} (acts : p.Acts blocks (.notify n nonce) q entity effect) :
    q.notifications = p.notifications.erase n := by
  cases acts
  rfl

/-- The delivery of the notification attaches a nonce, whether or not there is one. -/
theorem nonce_delivered {p : Plugin} (ok : p.Ok 2016) {n : Notification}
    (member : n ∈ p.notifications) {earlier : Plugin} (awaits : Awaits .generateNonce earlier)
    (same : n = runSystem earlier.ec 1 EcsSystemFunction.generateNonce.registered)
    (nonce : Nonce) :
    ∃ output p', p.Step ⟨.notify n nonce, output⟩ p' ∧
      p'.ec.cell 1 nonceComp = some (.string (talHexstr nonce.toList)) ∧
      ∀ other ∈ p.notifications.erase n, other ∈ p'.notifications := by
  obtain ⟨output, q, p', step, acts, took⟩ :=
    ok.delivers member awaits.ok.data awaits.hit same nonce
  refine ⟨output, p', step, ?_, fun other there => ?_⟩
  · rw [took]
    refine (Effect.cell_outcome _ _ _ _ (by decide)).trans ?_
    rw [Ec.cell_setAll, if_pos rfl]
    rfl
  · rw [took]
    exact List.mem_append_left _ (acts.notifications ▸ there)

/-- A client advances the entity twice before the first notification is delivered; the
    second finds a nonce attached and overwrites it. -/
theorem nonce_overwritten :
    ∃ labels p n nonce output p' eo,
      Run Plugin.Step (.init (.primitive (formatU 2016))) labels p ∧
      p.Step ⟨.notify n nonce, output⟩ p' ∧
      ecsSystemCalled p.regs.ecs n = some (.generateNonce, 1, eo) ∧
      nonceComp ∈ EcsSystemFunction.generateNonce.registered.disallowedComponents ∧
      (p.ec.cell 1 nonceComp).isSome ∧ p'.ec.cell 1 nonceComp ≠ p.ec.cell 1 nonceComp := by
  obtain ⟨p₁, step₁, awaits₁, idle, -⟩ := awaitsNonce_start
  obtain ⟨n, p₂, step₂, awaits₂, one, -, same⟩ := awaits₁.advance
  obtain ⟨n', p₃, step₃, awaits₃, two, -, same'⟩ := awaits₂.advance
  have pair : p₃.notifications = [n, n'] := by rw [two, one, idle]; rfl
  obtain ⟨output₄, p₄, step₄, nonce₄, kept⟩ := nonce_delivered awaits₃.ok (by simp [pair])
    awaits₂ same (Vector.replicate 32 0)
  have member : n' ∈ p₄.notifications := kept n' (by simp [pair])
  have ok₄ := awaits₃.ok.step step₄
  obtain ⟨output₅, p₅, step₅, nonce₅, -⟩ := nonce_delivered ok₄ member awaits₃ same'
    (Vector.replicate 32 1)
  refine ⟨_, p₄, n', _, output₅, p₅, _,
    .cons step₁ (.cons step₂ (.cons step₃ (.cons step₄ .nil))), step₅,
    same' ▸ ecsSystemCalled_builtin ok₄.agree.builtins awaits₃.ok.data 1 .generateNonce, by decide,
    by simp [nonce₄], ?_⟩
  rw [nonce₄, nonce₅]
  decide +kernel

/-- With one advance only the nonce is still missing when the notification arrives. -/
theorem notified_system_matched_nonce :
    ∃ labels p n nonce output p' eo,
      Run Plugin.Step (.init (.primitive (formatU 2016))) labels p ∧
      p.Step ⟨.notify n nonce, output⟩ p' ∧
      ecsSystemCalled p.regs.ecs n = some (.generateNonce, 1, eo) ∧
      ∃ u label v rest, Within Plugin.Step (.init (.primitive (formatU 2016))) labels p u label v
        rest ∧ n ∈ label.output.raised ∧
        Matches v.ec 1 EcsSystemFunction.generateNonce.registered := by
  obtain ⟨p₁, step₁, awaits₁, idle, -⟩ := awaitsNonce_start
  obtain ⟨n, p₂, step₂, awaits₂, one, -, same⟩ := awaits₁.advance
  obtain ⟨output₃, p₃, step₃, -, -⟩ := nonce_delivered awaits₂.ok (by simp [one]) awaits₂
    same (Vector.replicate 32 0)
  have run : Run Plugin.Step (.init (.primitive (formatU 2016))) _ p₂ :=
    .cons step₁ (.cons step₂ .nil)
  have call : ecsSystemCalled p₂.regs.ecs n = some (.generateNonce, 1, _) :=
    same ▸ ecsSystemCalled_builtin awaits₂.ok.agree.builtins awaits₂.ok.data 1 .generateNonce
  obtain ⟨u, label, v, rest, within, here, -, hit, -⟩ := notified_system_matched run step₃ call
  exact ⟨_, p₂, n, _, output₃, p₃, _, run, step₃, call, u, label, v, rest, within, here, hit⟩

end Payz
