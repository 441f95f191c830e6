import Payz.Payecs.Clients
import Payz.Payecs.Code
import Payz.Payecs.Newsystem
import Payz.Systems.Trigger

/-! # The plugin between its clients and lightningd

A command, a notification that lightningd hands back and the reply to a request are each
handled in one step.  The state holds, besides tables and registries, what is on its
way: the notifications raised and not delivered, and the requests not answered.
-/

namespace Payz

/-- The plugin with what is on its way. -/
structure Plugin where
  regs : Registries
  ec : Ec
  defaultMaxdelay : Option Text
  notifications : List Notification
  requests : List DecodeRequest

/-- The plugin after startup. -/
def Plugin.init (maxLocktimeBlocks : Json) : Plugin :=
  ⟨.setup, ecNew, systemDefaulterInit maxLocktimeBlocks, [], []⟩

/-- A command with its parameters, the delivery of a notification with the bytes drawn
    should a nonce be due, or the reply to a request. -/
inductive Event where
  | setcomponents (params : Json)
  | setdefaultsystems (params : Json)
  | newsystem (params : Json)
  | advance (params : Json)
  | notify (n : Notification) (nonce : Nonce)
  | decoded (request : DecodeRequest) (reply : DecodeReply)

/-- What a step raises, and the error of its advance, be it answered or logged. -/
structure Output where
  raised : List Notification
  error : Option Int

namespace Plugin

/-- Take over what a function leaves behind. -/
def take (p : Plugin) (outcome : Outcome) : Plugin × Output :=
  ({ p with
      ec := outcome.ec
      notifications := p.notifications ++ outcome.emitted
      requests := p.requests ++ outcome.requests },
    ⟨outcome.emitted, outcome.logged⟩)

/-- Handle one event. -/
def step (p : Plugin) : Event → Except Fault (Plugin × Output)
  | .setcomponents params =>
      (payecsSetcomponents p.ec params).map fun done => ({ p with ec := done.1 }, ⟨[], none⟩)
  | .setdefaultsystems params =>
      (payecsSetdefaultsystems p.regs.ecs.systems p.ec params).map fun done =>
        ({ p with ec := done.1 }, ⟨[], none⟩)
  | .newsystem params =>
      (payecsNewsystem p.regs params).map fun done => ({ p with regs := done.1 }, ⟨[], none⟩)
  | .advance params =>
      (payecsAdvance p.regs.ecs.systems p.ec params).map fun done =>
        p.take ⟨done.1.ec, done.1.emitted, [], done.1.error⟩
  | .notify n nonce =>
      (ecsSystemDeliver p.regs.ecs p.defaultMaxdelay nonce p.ec n).map
        { p with notifications := p.notifications.erase n }.take
  | .decoded request reply =>
      (decodeReplied p.regs.ecs.systems p.ec request reply).map
        { p with requests := p.requests.erase request }.take

end Plugin

/-- The reply is JSON. -/
def DecodeReply.WellFormed : DecodeReply → Prop
  | .result text members => (Json.object text members).WellFormed
  | .error res => res.WellFormed

/-- An event that can happen: commands come in JSON, what is delivered or answered is on
    its way. -/
def Event.Admissible (p : Plugin) : Event → Prop
  | .setcomponents params | .setdefaultsystems params | .newsystem params | .advance params =>
      params.WellFormed
  | .notify n _ => n ∈ p.notifications
  | .decoded request reply => request ∈ p.requests ∧ reply.WellFormed

/-- An event and what came of it. -/
structure Label where
  event : Event
  output : Output

/-- One step of the plugin. -/
def Plugin.Step (p : Plugin) (label : Label) (p' : Plugin) : Prop :=
  label.event.Admissible p ∧ p.step label.event = .ok (p', label.output)

/-- The entities whose components an event may change. -/
def Event.entities : Event → List UInt32
  | .setcomponents params =>
      match payecsSetcomponentsArgs params with
      | .ok (writes, _) => writes.map PayecsWritespec.entity
      | .error _ => []
  | .setdefaultsystems params =>
      match payecsSetdefaultsystemsArgs params with
      | .ok (entity, _) => [entity]
      | .error _ => []
  | .newsystem _ => []
  | .advance params =>
      match payecsAdvanceArgs params with
      | .ok entity => [entity]
      | .error _ => []
  | .notify n _ => [n.entity]
  | .decoded request _ => [request.entity]

/-! ## What holds in every reachable state -/

/-- A notification was raised for an earlier table, by a system that is still
    registered. -/
def Notification.Raised (systems : SystemMap) (n : Notification) : Prop :=
  ∃ earlier : Ec, earlier.All Json.WellFormed ∧ n.Current systems earlier

/-- What every step keeps. -/
structure Plugin.Ok (blocks : Nat) (p : Plugin) : Prop where
  agree : RegistriesAgree p.regs
  consistent : p.ec.Consistent
  data : p.ec.All Json.WellFormed
  maxdelay : p.defaultMaxdelay = some (formatU blocks)
  raised : ∀ n ∈ p.notifications, n.Raised p.regs.ecs.systems

theorem Plugin.ok_init (blocks : Nat) : (init (.primitive (formatU blocks))).Ok blocks where
  agree := registriesAgree_setup
  consistent := Ec.consistent_ecNew
  data := Ec.all_ecNew _
  maxdelay := rfl
  raised := by simp [init]

/-- A notification on its way is that of a built-in system, whose function will be
    called, or of a system registered by another plugin. -/
theorem Notification.Raised.cases {regs : Registries} (agree : RegistriesAgree regs)
    {n : Notification} (raised : n.Raised regs.ecs.systems) :
    (∃ (func : EcsSystemFunction) (earlier : Ec), earlier.All Json.WellFormed ∧
      Matches earlier n.entity func.registered ∧
      n = runSystem earlier n.entity func.registered) ∨
    ∀ func : EcsSystemFunction, n.system ≠ func.name := by
  obtain ⟨earlier, data, system, registered, hit, same⟩ := raised
  by_cases builtin : ∃ func : EcsSystemFunction, n.system = func.name
  · obtain ⟨func, name⟩ := builtin
    rw [name, agree.builtins.systems] at registered
    cases registered
    exact .inl ⟨func, earlier, data, hit, same⟩
  · exact .inr (not_exists.mp builtin)

theorem Plugin.Ok.notify {blocks : Nat} {p : Plugin} (ok : p.Ok blocks) {n : Notification}
    (member : n ∈ p.notifications) (nonce : Nonce) :
    (∃ (func : EcsSystemFunction) (earlier : Ec), earlier.All Json.WellFormed ∧
      Matches earlier n.entity func.registered ∧
      n = runSystem earlier n.entity func.registered ∧
      p.step (.notify n nonce) = .ok ({ p with notifications := p.notifications.erase n }.take
        ((func.effect nonce blocks (earlier.current n.entity)).outcome p.regs.ecs.systems p.ec
          n.entity))) ∨
    ((∀ func : EcsSystemFunction, n.system ≠ func.name) ∧
      p.step (.notify n nonce) =
        .ok ({ p with notifications := p.notifications.erase n }, ⟨[], none⟩)) := by
  rcases (ok.raised n member).cases ok.agree with ⟨func, earlier, data, hit, same⟩ | other
  · refine .inl ⟨func, earlier, data, hit, same, ?_⟩
    have called := ecsSystemDeliver_builtin ok.agree.builtins nonce blocks ok.data data n.entity func
    rw [← same, ← ok.maxdelay] at called
    rw [step, called]
    rfl
  · refine .inr ⟨other, ?_⟩
    rw [step, ecsSystemDeliver_other ok.agree.builtins nonce p.defaultMaxdelay p.ec other]
    simp [Except.map, take, ecsDone]

theorem DecodeReply.effect_wellFormed {reply : DecodeReply} (wellFormed : reply.WellFormed) :
    ∀ m ∈ reply.effect.writes, m.2.WellFormed := by
  cases reply with
  | result text members =>
      intro m member
      obtain ⟨m', there, rfl⟩ := List.mem_map.mp member
      cases wellFormed with
      | object keys values _ => exact values m' there
  | error res =>
      exact List.forall_mem_cons.mpr ⟨wellFormed,
        List.forall_mem_singleton.mpr nullDatum_wellFormed⟩

theorem Plugin.Ok.decoded {blocks : Nat} {p : Plugin} (ok : p.Ok blocks) (request : DecodeRequest)
    {reply : DecodeReply} (wellFormed : reply.WellFormed) :
    p.step (.decoded request reply) = .ok ({ p with requests := p.requests.erase request }.take
      (reply.effect.outcome p.regs.ecs.systems p.ec request.entity)) := by
  rw [step, decodeReplied_eq p.regs.ecs.systems ok.data request
    (DecodeReply.effect_wellFormed wellFormed)]
  rfl

/-! ## What a step keeps -/

/-- Everything registered stays registered. -/
def SystemMap.Extends (systems systems' : SystemMap) : Prop :=
  ∀ {name : Text} {system : EcsysRegistered}, systems.map[name]? = some system →
    systems'.map[name]? = some system

theorem Notification.Current.mono {systems systems' : SystemMap} (more : systems.Extends systems')
    {ec : Ec} {n : Notification} (current : n.Current systems ec) : n.Current systems' ec := by
  obtain ⟨system, registered, hit, same⟩ := current
  exact ⟨system, more registered, hit, same⟩

theorem payecsNewsystem_keeps {regs regs' : Registries} (agree : RegistriesAgree regs)
    {params : Json} {reply : Reply} (ran : payecsNewsystem regs params = .ok (regs', reply)) :
    RegistriesAgree regs' ∧ regs.ecs.systems.Extends regs'.ecs.systems := by
  rcases payecsNewsystem_cases agree ran with
    ⟨rfl, -⟩ | ⟨system, required, disallowed, -, -, fresh, rfl⟩
  · exact ⟨agree, fun found => found⟩
  · refine ⟨agree.insert required disallowed fresh, ?_⟩
    intro name other found
    have differ : system ≠ name := by
      rintro rfl
      exact fresh (Std.ExtTreeMap.mem_iff_isSome_getElem?.mpr (by simp [found]))
    simpa [SystemMap.insert, Std.ExtTreeMap.getElem?_insert, differ] using found

theorem cell_of_writes_other {i : Nat} {ec ec' : Ec} {writes : List PayecsWritespec}
    (consistent : ec.Consistent) (run : payecsSetcomponentsWrites i ec writes = .ok ec')
    {entity : UInt32} (other : entity ∉ writes.map PayecsWritespec.entity) (component : Text) :
    ec'.cell entity component = ec.cell entity component := by
  induction writes generalizing i ec with
  | nil =>
      cases run
      rfl
  | cons w writes ih =>
      rw [List.map_cons, List.mem_cons, not_or] at other
      obtain ⟨after, -, kept, cells, tail⟩ := payecsSetcomponentsWrites_cons consistent run
      rw [ih kept tail other.2, cells, PayecsWritespec.written, if_neg (Ne.symm other.1)]

theorem payecsSetcomponents_keeps {ec ec' : Ec} (consistent : ec.Consistent)
    (data : ec.All Json.WellFormed) {params : Json} (wellFormed : params.WellFormed) {reply : Reply}
    (ran : payecsSetcomponents ec params = .ok (ec', reply)) :
    ec'.Consistent ∧ ec'.All Json.WellFormed ∧
      ∀ entity ∉ (Event.setcomponents params).entities, ∀ component,
        ec'.cell entity component = ec.cell entity component := by
  unfold payecsSetcomponents at ran
  cases args : payecsSetcomponentsArgs params with
  | error fail =>
      rw [args] at ran
      cases ran
      exact ⟨consistent, data, fun _ _ _ => rfl⟩
  | ok specs =>
      rw [args] at ran
      rcases payecsSetcomponentsRun_cases ran with ⟨-, rfl, -⟩ | ⟨-, run, -⟩
      · exact ⟨consistent, data, fun _ _ _ => rfl⟩
      · refine ⟨consistent_of_writes consistent run,
          all_of_writes consistent data (payecsSetcomponentsArgs_values wellFormed args) run, ?_⟩
        intro entity other component
        simp only [Event.entities, args] at other
        exact cell_of_writes_other consistent run other component

theorem withSystems_keeps {ec : Ec} (consistent : ec.Consistent) (data : ec.All Json.WellFormed)
    (entity : UInt32) (names : List Text) :
    (withSystems ec entity names).Consistent ∧ (withSystems ec entity names).All Json.WellFormed ∧
      ∀ {entity' component}, ¬ (entity = entity' ∧ syscomp = component) →
        (withSystems ec entity names).cell entity' component = ec.cell entity' component := by
  refine ⟨consistent.set _ _ _, data.set _ _ ?_, ?_⟩
  · rintro datum same
    cases same
    refine (data.current nullDatum_wellFormed entity syscomp).withMember (.of_plain rfl) ?_
    rintro v same
    cases same
    exact stringArray_wellFormed names
  · intro entity' component other
    rw [withSystems, cell_ecSetComponent, if_neg other]

theorem payecsSetdefaultsystems_keeps {systems : SystemMap} {ec ec' : Ec}
    (consistent : ec.Consistent) (data : ec.All Json.WellFormed) {params : Json} {reply : Reply}
    (ran : payecsSetdefaultsystems systems ec params = .ok (ec', reply)) :
    ec'.Consistent ∧ ec'.All Json.WellFormed ∧
      ∀ entity ∉ (Event.setdefaultsystems params).entities, ∀ component,
        ec'.cell entity component = ec.cell entity component := by
  rcases payecsSetdefaultsystems_cases data ran with
    rfl | ⟨entity, prepend, append, args, rfl⟩
  · exact ⟨consistent, data, fun _ _ _ => rfl⟩
  · obtain ⟨kept, wellFormed, frame⟩ := withSystems_keeps consistent data entity
      (prepend ++ defaultSystems ++ append)
    refine ⟨kept, wellFormed, fun entity' other component => frame ?_⟩
    simp only [Event.entities, args, List.mem_singleton] at other
    exact fun both => other both.1.symm

/-! ## What a step can do -/

/-- The table is written by a client. -/
def Event.IsWrite : Event → Prop
  | .setcomponents _ | .setdefaultsystems _ => True
  | _ => False

/-- A step that works on an entity and then goes on: `q` is the plugin without the item
    that brought it about. -/
inductive Plugin.Acts (blocks : Nat) (p : Plugin) : Event → Plugin → UInt32 → Effect → Prop where
  | advance {params entity} : payecsAdvanceArgs params = .ok entity →
      Acts blocks p (.advance params) p entity ⟨[], .advance⟩
  | notify {n nonce} {func : EcsSystemFunction} {earlier : Ec} : n ∈ p.notifications →
      earlier.All Json.WellFormed → Matches earlier n.entity func.registered →
      n = runSystem earlier n.entity func.registered →
      Acts blocks p (.notify n nonce) { p with notifications := p.notifications.erase n } n.entity
        (func.effect nonce blocks (earlier.current n.entity))
  | decoded {request reply} : request ∈ p.requests → reply.WellFormed →
      Acts blocks p (.decoded request reply) { p with requests := p.requests.erase request }
        request.entity reply.effect

/-- A step that raises nothing. -/
inductive Plugin.Settles (p : Plugin) : Event → Plugin → Prop where
  | wrote {event : Event} {ec : Ec} : event.IsWrite → ec.Consistent → ec.All Json.WellFormed →
      (∀ entity ∉ event.entities, ∀ component,
        ec.cell entity component = p.ec.cell entity component) →
      Settles p event { p with ec := ec }
  | registered {params} {regs : Registries} : RegistriesAgree regs →
      p.regs.ecs.systems.Extends regs.ecs.systems →
      Settles p (.newsystem params) { p with regs := regs }
  | refused {params} : Settles p (.advance params) p
  | passed {n nonce} : n ∈ p.notifications → (∀ func : EcsSystemFunction, n.system ≠ func.name) →
      Settles p (.notify n nonce) { p with notifications := p.notifications.erase n }

theorem Plugin.Ok.step_cases {blocks : Nat} {p p' : Plugin} {label : Label} (ok : p.Ok blocks)
    (step : p.Step label p') :
    (∃ q entity effect, p.Acts blocks label.event q entity effect ∧
      q.take (effect.outcome p.regs.ecs.systems p.ec entity) = (p', label.output)) ∨
    (label.output = ⟨[], none⟩ ∧ p.Settles label.event p') := by
  obtain ⟨event, output⟩ := label
  obtain ⟨admissible, ran⟩ := step
  cases event with
  | setcomponents params =>
      obtain ⟨done, returned, same⟩ := eq_of_map_eq_ok ran
      cases same
      obtain ⟨kept, data, frame⟩ := payecsSetcomponents_keeps ok.consistent ok.data admissible returned
      exact .inr ⟨rfl, .wrote trivial kept data frame⟩
  | setdefaultsystems params =>
      obtain ⟨done, returned, same⟩ := eq_of_map_eq_ok ran
      cases same
      obtain ⟨kept, data, frame⟩ := payecsSetdefaultsystems_keeps ok.consistent ok.data returned
      exact .inr ⟨rfl, .wrote trivial kept data frame⟩
  | newsystem params =>
      obtain ⟨done, returned, same⟩ := eq_of_map_eq_ok ran
      cases same
      obtain ⟨agree, more⟩ := payecsNewsystem_keeps ok.agree returned
      exact .inr ⟨rfl, .registered agree more⟩
  | advance params =>
      obtain ⟨done, returned, same⟩ := eq_of_map_eq_ok ran
      cases args : payecsAdvanceArgs params with
      | error fail =>
          simp only [payecsAdvance, args, Except.ok.injEq] at returned
          subst returned
          simp only [take, List.append_nil, Prod.mk.injEq] at same
          obtain ⟨rfl, rfl⟩ := same
          exact .inr ⟨rfl, .refused⟩
      | ok entity =>
          obtain ⟨reply, advanced⟩ := payecsAdvance_eq p.regs.ecs.systems ok.data args
          rw [advanced] at returned
          cases returned
          exact .inl ⟨p, entity, _, .advance args, same⟩
  | notify n nonce =>
      rcases ok.notify admissible nonce with ⟨func, earlier, data, hit, same, done⟩ | ⟨other, done⟩
      · rw [done, Except.ok.injEq] at ran
        exact .inl ⟨_, _, _, .notify admissible data hit same, ran⟩
      · rw [done, Except.ok.injEq, Prod.mk.injEq] at ran
        obtain ⟨rfl, rfl⟩ := ran
        exact .inr ⟨rfl, .passed admissible other⟩
  | decoded request reply =>
      rw [ok.decoded request admissible.2, Except.ok.injEq] at ran
      exact .inl ⟨_, _, _, .decoded admissible.1 admissible.2, ran⟩

theorem Plugin.Acts.wellFormed {blocks : Nat} {p q : Plugin} {event : Event} {entity : UInt32}
    {effect : Effect} (acts : p.Acts blocks event q entity effect) :
    ∀ m ∈ effect.writes, m.2.WellFormed := by
  cases acts with
  | advance => simp
  | notify member data hit same =>
      exact EcsSystemFunction.effect_wellFormed _ _ _ fun component _ =>
        data.current nullDatum_wellFormed _ component
  | decoded member wellFormed => exact DecodeReply.effect_wellFormed wellFormed

theorem Plugin.Acts.sound {blocks : Nat} {p q : Plugin} {event : Event} {entity : UInt32}
    {effect : Effect} (acts : p.Acts blocks event q entity effect) : effect.Sound := by
  cases acts with
  | advance => exact ⟨by simp, fun ends => by cases ends⟩
  | @notify n nonce func earlier _ _ _ _ => exact func.effect_sound nonce blocks _
  | @decoded request reply _ _ => exact reply.effect_sound

theorem Plugin.Acts.mem_of_mem {blocks : Nat} {p q : Plugin} {event : Event} {entity : UInt32}
    {effect : Effect} (acts : p.Acts blocks event q entity effect) {n : Notification}
    (member : n ∈ q.notifications) : n ∈ p.notifications := by
  cases acts with
  | advance | decoded => exact member
  | notify => exact List.mem_of_mem_erase member

/-- Only the item that brought the step about is gone from the plugin. -/
theorem Plugin.Acts.same {blocks : Nat} {p q : Plugin} {event : Event} {entity : UInt32}
    {effect : Effect} (acts : p.Acts blocks event q entity effect) :
    q.regs = p.regs ∧ q.defaultMaxdelay = p.defaultMaxdelay := by
  cases acts <;> exact ⟨rfl, rfl⟩

theorem Plugin.Ok.step {blocks : Nat} {p p' : Plugin} {label : Label} (ok : p.Ok blocks)
    (step : p.Step label p') : p'.Ok blocks := by
  obtain ⟨event, output⟩ := label
  rcases ok.step_cases step with ⟨q, entity, effect, acts, took⟩ | ⟨-, settles⟩
  · obtain ⟨regs, maxdelay⟩ := acts.same
    cases took
    have data : (effect.outcome p.regs.ecs.systems p.ec entity).ec.All Json.WellFormed :=
      Effect.wellFormed_outcome p.regs.ecs.systems entity ok.data acts.wellFormed
    refine ⟨by simpa [regs] using ok.agree, effect.consistent_outcome _ entity ok.consistent, data,
      by simpa [maxdelay] using ok.maxdelay, fun n member => ?_⟩
    rw [regs]
    rcases List.mem_append.mp member with old | new
    · exact ok.raised n (acts.mem_of_mem old)
    · rcases effect.outcome_cases p.regs.ecs.systems p.ec entity with
        ⟨none, -⟩ | ⟨n', one, -, -, current⟩
      · rw [none] at new
        cases new
      · rw [one, List.mem_singleton] at new
        subst new
        exact ⟨_, data, current⟩
  · cases settles with
    | wrote _ consistent data frame =>
        exact ⟨ok.agree, consistent, data, ok.maxdelay, ok.raised⟩
    | registered agree more =>
        refine ⟨agree, ok.consistent, ok.data, ok.maxdelay, fun n member => ?_⟩
        obtain ⟨earlier, data, current⟩ := ok.raised n member
        exact ⟨earlier, data, current.mono more⟩
    | refused => exact ok
    | passed _ _ =>
        exact ⟨ok.agree, ok.consistent, ok.data, ok.maxdelay,
          fun n member => ok.raised n (List.mem_of_mem_erase member)⟩

end Payz
