import Payz.Payecs.Systrace
import Payz.Plugin.Sendable

/-! # The trace of an entity is the history of its advances

The plugin together with the trace it keeps.  lightningd hands every notification back
once, in the order in which they were raised, as the JSON datum with the text that was
written; the handler first adds it to the trace and then triggers the system.
-/

namespace Payz

open Runs

/-- An advance that succeeded: the entity, the system selected, and the table right after
    `lightningd:systems` was updated. -/
structure Advance where
  entity : UInt32
  system : EcsysRegistered
  ec : Ec

/-- The notification raised for it. -/
def Advance.notification (a : Advance) : Notification := runSystem a.ec a.entity a.system

/-- The entity with the values its required components have. -/
def Advance.entityObject (a : Advance) : Json :=
  .tight (("entity".toList, .primitive (formatU a.entity.toNat)) ::
    a.system.requiredComponents.map fun component => (component, a.ec.current a.entity component))

/-- What the trace should hold for it. -/
def Advance.entry (a : Advance) (time : Timeabs) : Json :=
  systraceObject time (.string (jsonEscape a.system.system)) a.entityObject

/-- The advance that a call of `ecsys_advance` on this table is, if it succeeds. -/
def ecsysAdvances (systems : SystemMap) (ec : Ec) (entity : UInt32) : List Advance :=
  match payzGenericGetsystemsTal ec entity "systems".toList jsonToArrayOfStrings with
  | none => []
  | some names =>
      match searchSystem systems ec entity 0 names with
      | .found current system => [⟨entity, system, afterCurrent ec entity current⟩]
      | _ => []

/-- The same for a function that ends with an advance. -/
def Effect.advances (effect : Effect) (systems : SystemMap) (ec : Ec) (entity : UInt32) :
    List Advance :=
  match effect.ending with
  | .advance => ecsysAdvances systems (ec.setAll entity effect.writes) entity
  | _ => []

/-- The plugin and its trace. -/
structure Traced where
  plugin : Plugin
  systraces : PayecsSystraces

/-- After startup. -/
def Traced.init (maxLocktimeBlocks : Json) : Traced := ⟨.init maxLocktimeBlocks, .init⟩

/-- A command or the reply to a request, a new entity, or the notification in front, with
    what is delivered for it, the random bytes and the time. -/
inductive TraceEvent where
  | command (event : Event)
  | newentity
  | notification (n : Notification) (payload : Json) (nonce : Nonce) (time : Timeabs)

/-- Handle an event. -/
def Traced.step (s : Traced) : TraceEvent → Except Fault Traced
  | .command event => (s.plugin.step event).map fun done => { s with plugin := done.1 }
  | .newentity => .ok { s with plugin := { s.plugin with ec := (ecNewentity s.plugin.ec).2 } }
  -- `payecs_system_notification`.
  | .notification n payload nonce time =>
      (ecsSystemNotify s.plugin.regs.ecs s.plugin.defaultMaxdelay nonce s.plugin.ec payload).map
        fun outcome => {
          plugin := ({ s.plugin with
            notifications := s.plugin.notifications.erase n }.take outcome).1
          systraces := payecsSystraceAdd s.systraces time payload }

/-- What can happen: a notification is delivered when it is the first one, as JSON with
    the text that was written for it. -/
def TraceEvent.Admissible (p : Plugin) : TraceEvent → Prop
  | .command event => (∀ n nonce, event ≠ .notify n nonce) ∧ event.Admissible p
  | .newentity => True
  | .notification n payload _ _ => p.notifications.head? = some n ∧ payload.WellFormed ∧
      payload.jsonTokFull = runSystemText n

/-- The advances that succeed while an event is handled. -/
def TraceEvent.advances (blocks : Nat) (p : Plugin) : TraceEvent → List Advance
  | .command (.advance params) =>
      match payecsAdvanceArgs params with
      | .ok entity => ecsysAdvances p.regs.ecs.systems p.ec entity
      | .error _ => []
  | .command (.decoded request reply) =>
      reply.effect.advances p.regs.ecs.systems p.ec request.entity
  | .notification _ payload nonce _ =>
      match ecsSystemLookup p.regs.ecs payload with
      | some (func, eid, entity) =>
          (func.effect nonce blocks fun component =>
            (entity.jsonGetMember component).getD nullDatum).advances p.regs.ecs.systems p.ec eid
      | none => []
  | _ => []

/-- An event with the advances that succeeded. -/
structure TraceLabel where
  event : TraceEvent
  advances : List Advance

/-- One step of the plugin and its trace. -/
def Traced.Step (blocks : Nat) (s : Traced) (label : TraceLabel) (s' : Traced) : Prop :=
  label.event.Admissible s.plugin ∧ s.step label.event = .ok s' ∧
    label.advances = label.event.advances blocks s.plugin

/-- The advances of a run. -/
def advancesOf (labels : List TraceLabel) : List Advance := labels.flatMap TraceLabel.advances

/-- Neither a new system nor a promoted type makes a system ask for an attached component
    whose name cannot be a key.  The keys of a `decode` result always can. -/
def TraceEvent.Sendable (p : Plugin) : TraceEvent → Prop
  | .command (.decoded _ _) => True
  | .command event => event.Sendable StringText p
  | .newentity => True
  | .notification n _ nonce _ => (Event.notify n nonce).Sendable StringText p

/-- Steps of that kind. -/
def SendableStep (blocks : Nat) (s : Traced) (label : TraceLabel) (s' : Traced) : Prop :=
  s.Step blocks label s' ∧ label.event.Sendable s.plugin

/-! ## What a step raises -/

theorem advanceSpec_advances (systems : SystemMap) (ec : Ec) (entity : UInt32) :
    (advanceSpec systems ec entity).emitted =
      (ecsysAdvances systems ec entity).map Advance.notification := by
  unfold advanceSpec ecsysAdvances
  cases payzGenericGetsystemsTal ec entity "systems".toList jsonToArrayOfStrings with
  | none => rfl
  | some names =>
      dsimp only
      cases searchSystem systems ec entity 0 names with
      | found | unregistered | none => rfl

theorem Effect.outcome_advances (effect : Effect) (systems : SystemMap) (ec : Ec)
    (entity : UInt32) : (effect.outcome systems ec entity).emitted =
      (effect.advances systems ec entity).map Advance.notification := by
  unfold outcome advances
  cases effect.ending with
  | advance => exact advanceSpec_advances systems _ entity
  | done | decode => rfl

theorem EcsSystemFunction.effect_congr (func : EcsSystemFunction) (nonce : Nonce) (blocks : Nat)
    {values values' : Text → Json}
    (same : ∀ component ∈ func.registered.requiredComponents, values component = values' component) :
    func.effect nonce blocks values = func.effect nonce blocks values' := by
  cases func with
  | parseInvoice | promoteInvoiceType | invoiceAmountMsat =>
      simp only [effect, same _ (List.mem_singleton.mpr rfl)]
  | _ => rfl

/-- The notifications raised while an event is handled are those of its advances. -/
theorem Plugin.Ok.raised_advances {blocks : Nat} {p p' : Plugin} {event : Event} {output : Output}
    (ok : p.Ok blocks) (step : p.Step ⟨event, output⟩ p') {traced : TraceEvent}
    (handled : traced = .command event ∧ (∀ n nonce, event ≠ .notify n nonce) ∨
      ∃ n nonce time, event = .notify n nonce ∧ traced = .notification n n.payload nonce time) :
    output.raised = (traced.advances blocks p).map Advance.notification := by
  rcases ok.step_cases step with ⟨q, entity, effect, acts, took⟩ | ⟨quiet, settles⟩
  · have raised : output.raised = (effect.outcome p.regs.ecs.systems p.ec entity).emitted := by
      have same : (q.take (effect.outcome p.regs.ecs.systems p.ec entity)).2 = output :=
        congrArg Prod.snd took
      rw [← same]
      rfl
    rw [raised, effect.outcome_advances]
    congr 1
    cases acts with
    | advance args =>
        rcases handled with ⟨rfl, -⟩ | ⟨n, nonce, time, same, -⟩
        · simp only [TraceEvent.advances, args]
          rfl
        · cases same
    | @notify n nonce func earlier member data hit same =>
        rcases handled with ⟨-, other⟩ | ⟨n', nonce', time, equal, rfl⟩
        · exact absurd rfl (other n nonce)
        · cases equal
          have found := ecsSystemLookup_builtin ok.agree.builtins earlier n.entity func
          rw [← same] at found
          simp only [TraceEvent.advances, found]
          rw [func.effect_congr nonce blocks fun component member => ?_]
          rw [same]
          exact (congrArg (Option.getD · nullDatum) (jsonGetMember_runSystem earlier n.entity
            (func.required_ne_entity component member) member)).symm
    | decoded =>
        rcases handled with ⟨rfl, -⟩ | ⟨n, nonce, time, same, -⟩
        · rfl
        · cases same
  · cases quiet
    cases settles with
    | wrote write =>
        rcases handled with ⟨rfl, -⟩ | ⟨n, nonce, time, rfl, -⟩
        · cases event <;> first | rfl | cases write
        · cases write
    | registered =>
        rcases handled with ⟨rfl, -⟩ | ⟨n, nonce, time, same, -⟩
        · rfl
        · cases same
    | @refused params =>
        rcases handled with ⟨rfl, -⟩ | ⟨n, nonce, time, same, -⟩
        · cases args : payecsAdvanceArgs params with
          | error fail =>
              simp only [TraceEvent.advances, args]
              rfl
          | ok entity =>
              obtain ⟨done, returned, same⟩ := eq_of_map_eq_ok step.2
              obtain ⟨reply, advanced⟩ := payecsAdvance_eq p.regs.ecs.systems ok.data args
              rw [advanced, Except.ok.injEq] at returned
              subst returned
              simp only [TraceEvent.advances, args, ← advanceSpec_advances]
              exact (congrArg (fun took => took.2.raised) same).symm
        · cases same
    | @passed n nonce member other =>
        rcases handled with ⟨-, excluded⟩ | ⟨n', nonce', time, equal, rfl⟩
        · exact absurd rfl (excluded n nonce)
        · cases equal
          simp only [TraceEvent.advances, ecsSystemLookup_other ok.agree.builtins other (jsonGetMember_system n)]
          rfl

/-! ## The history so far -/

/-- What is on its way once the event has been taken up. -/
def Event.rest (p : Plugin) : Event → List Notification
  | .notify n _ => p.notifications.erase n
  | _ => p.notifications

theorem Plugin.Ok.step_notifications {blocks : Nat} {p p' : Plugin} {label : Label}
    (ok : p.Ok blocks) (step : p.Step label p') :
    p'.notifications = label.event.rest p ++ label.output.raised := by
  obtain ⟨event, output⟩ := label
  rcases ok.step_cases step with ⟨q, entity, effect, acts, took⟩ | ⟨quiet, settles⟩
  · cases took
    cases acts <;> rfl
  · rw [quiet, List.append_nil]
    cases settles with
    | wrote write =>
        cases event <;> first | rfl | cases write
    | registered | refused | passed => rfl

/-- The trace holds the advances whose notifications have been delivered. -/
structure Traced.Told (history : List Advance) (s : Traced) (before pending : List Advance)
    (times : List Timeabs) : Prop where
  split : history = before ++ pending
  pending : pending.map Advance.notification = s.plugin.notifications
  each : times.length = before.length
  prints : s.systraces.Prints ((before.zip times).map fun d => (d.1.entity, d.1.entry d.2))
  remaining : s.systraces.remaining + before.length = 100000

/-- What holds after every run. -/
structure Traced.Tells (blocks : Nat) (history : List Advance) (s : Traced) : Prop where
  ok : s.plugin.Ok blocks
  names : s.plugin.ec.Named (s.plugin.regs.ecs.systems.Sendable StringText)
  sendable : ∀ n ∈ s.plugin.notifications, n.payload.WellFormed
  written : ∀ a ∈ history, a.notification.payload.WellFormed
  told : history.length ≤ 100000 → ∃ before pending times, s.Told history before pending times

theorem Traced.tells_init (blocks : Nat) :
    (init (.primitive (formatU blocks))).Tells blocks [] where
  ok := Plugin.ok_init blocks
  names := by
    intro entity component attached
    cases attached
  sendable := by simp [init, Plugin.init]
  written := by simp
  told _ := ⟨[], [], [], ⟨rfl, rfl, rfl, rfl, rfl⟩⟩

theorem Traced.Told.deliver {history : List Advance} {s : Traced} {a : Advance}
    {before pending : List Advance} {times : List Timeabs}
    (told : s.Told history before (a :: pending) times) (few : history.length ≤ 100000)
    (time : Timeabs) {q : Plugin} (rest : pending.map Advance.notification = q.notifications) :
    (⟨q, payecsSystraceAdd s.systraces time a.notification.payload⟩ : Traced).Told history
      (before ++ [a]) pending (times ++ [time]) := by
  have size := congrArg List.length told.split
  simp only [List.length_append, List.length_cons] at size
  have count := told.remaining
  have object : a.notification.entityObject = a.entityObject := by
    simp only [Notification.entityObject, Advance.entityObject, Advance.notification, runSystem,
      ecGetComponent_eq]
  obtain ⟨prints, remaining⟩ := told.prints.add (by omega) time
    (jsonGetMember_system a.notification) (jsonGetMember_entity a.notification)
    (Json.jsonToU32_formatU a.entity)
  rw [object] at prints
  refine ⟨by rw [told.split]; simp, rest, by simp [told.each], ?_, ?_⟩
  · rw [List.zip_append told.each.symm, List.map_append]
    exact prints
  · simp only [remaining, List.length_append, List.length_singleton]
    omega

theorem Traced.Told.raise {history : List Advance} {s : Traced} {before pending : List Advance}
    {times : List Timeabs} (told : s.Told history before pending times) (new : List Advance)
    {p' : Plugin}
    (raised : p'.notifications = s.plugin.notifications ++ new.map Advance.notification) :
    (⟨p', s.systraces⟩ : Traced).Told (history ++ new) before (pending ++ new) times := by
  refine ⟨by rw [told.split, List.append_assoc], ?_, told.each, told.prints, told.remaining⟩
  rw [List.map_append, told.pending]
  exact raised.symm

theorem TraceEvent.Sendable.command {p : Plugin} {event : Event} (admissible : event.Admissible p)
    (sendable : (TraceEvent.command event).Sendable p) : event.Sendable StringText p := by
  cases event with
  | setcomponents | setdefaultsystems | newsystem | advance | notify => exact sendable
  | decoded request reply =>
      cases reply with
      | error res => trivial
      | result text members =>
          intro key value last _
          cases admissible.2 with
          | object keys _ _ =>
              have key' : StringText key := keys (key, value) (Ec.mem_of_lastValue last)
              exact .inl (stringText_append (.of_plain rfl) key')

theorem Traced.Tells.sendable_step {blocks : Nat} {history : List Advance} {s : Traced}
    (tells : s.Tells blocks history) {label : Label} {p' : Plugin}
    (step : s.plugin.Step label p') (sendable : label.event.Sendable StringText s.plugin) :
    p'.ec.Named (p'.regs.ecs.systems.Sendable StringText) ∧ (∀ n ∈ p'.notifications, n.payload.WellFormed) ∧
      ∀ n ∈ label.output.raised, n.payload.WellFormed := by
  have names := Payz.sendable_step (fun name => name.stringText) tells.ok step sendable tells.names
  have raised : ∀ n ∈ label.output.raised, n.payload.WellFormed := fun n new =>
    have current := tells.ok.raised_current step new
    n.payload_wellFormed (current.names names) (current.values (tells.ok.step step).data)
  refine ⟨names, fun n member => ?_, raised⟩
  rcases tells.ok.mem_notifications step member with old | new
  · exact tells.sendable n old
  · exact raised n new

theorem Traced.Tells.step {blocks : Nat} {history : List Advance} {s s' : Traced}
    {label : TraceLabel} (tells : s.Tells blocks history)
    (step : SendableStep blocks s label s') : s'.Tells blocks (history ++ label.advances) := by
  obtain ⟨event, advances⟩ := label
  obtain ⟨⟨admissible, ran, counted⟩, sendable⟩ := step
  dsimp only at admissible ran counted sendable ⊢
  subst counted
  have fewer : ∀ new : List Advance, (history ++ new).length ≤ 100000 → history.length ≤ 100000 := by
    intro new few
    rw [List.length_append] at few
    omega
  cases event with
  | command event =>
      obtain ⟨⟨p', output⟩, returned, same⟩ := eq_of_map_eq_ok ran
      subst same
      have takes : s.plugin.Step ⟨event, output⟩ p' := ⟨admissible.2, returned⟩
      obtain ⟨names, sent, new⟩ := tells.sendable_step takes (sendable.command admissible.2)
      have raised := tells.ok.raised_advances takes (.inl ⟨rfl, admissible.1⟩)
      have notifications : p'.notifications = s.plugin.notifications ++
          ((TraceEvent.command event).advances blocks s.plugin).map Advance.notification := by
        rw [tells.ok.step_notifications takes, ← raised]
        cases event with
        | notify n nonce => exact absurd rfl (admissible.1 n nonce)
        | _ => rfl
      dsimp only at new raised
      rw [raised, List.forall_mem_map] at new
      refine ⟨tells.ok.step takes, names, sent, List.forall_mem_append.mpr ⟨tells.written, new⟩,
        fun few => ?_⟩
      obtain ⟨before, pending, times, told⟩ := tells.told (fewer _ few)
      exact ⟨before, _, times, told.raise _ notifications⟩
  | newentity =>
      cases ran
      have quiet : TraceEvent.newentity.advances blocks s.plugin = [] := rfl
      rw [quiet, List.append_nil]
      have ok := tells.ok
      refine ⟨⟨ok.agree, ⟨ok.consistent.noEmptyRow, ok.consistent.ownName, ok.consistent.notNull⟩,
        ok.data, ok.maxdelay, ok.raised⟩, tells.names, tells.sendable, tells.written, fun few => ?_⟩
      obtain ⟨before, pending, times, told⟩ := tells.told few
      exact ⟨before, pending, times,
        ⟨told.split, told.pending, told.each, told.prints, told.remaining⟩⟩
  | notification n payload nonce time =>
      obtain ⟨first, wellFormed, text⟩ := admissible
      obtain ⟨tail, queue⟩ : ∃ tail, s.plugin.notifications = n :: tail :=
        List.head?_eq_some_iff.mp first
      have member : n ∈ s.plugin.notifications := by rw [queue]; exact List.mem_cons_self
      have same : payload = n.payload := by
        rw [runSystemText_eq] at text
        exact wellFormed.eq_of_text (tells.sendable n member) text
      subst same
      obtain ⟨outcome, returned, same⟩ := eq_of_map_eq_ok ran
      subst same
      have takes : s.plugin.Step ⟨.notify n nonce, ⟨outcome.emitted, outcome.logged⟩⟩
          ({ s.plugin with notifications := s.plugin.notifications.erase n }.take outcome).1 := by
        refine ⟨member, ?_⟩
        have delivered : n.delivered = some n.payload := by
          rw [Notification.delivered, ← text, jsonParseSimple_wellFormed wellFormed]
        simp only [Plugin.step, ecsSystemDeliver, delivered, returned]
        rfl
      obtain ⟨names, sent, new⟩ := tells.sendable_step takes sendable
      have raised := tells.ok.raised_advances takes (.inr ⟨n, nonce, time, rfl, rfl⟩)
      dsimp only at new raised
      rw [raised, List.forall_mem_map] at new
      refine ⟨tells.ok.step takes, names, sent, List.forall_mem_append.mpr ⟨tells.written, new⟩,
        fun few => ?_⟩
      obtain ⟨before, pending, times, told⟩ := tells.told (fewer _ few)
      have waiting := told.pending
      rw [queue] at waiting
      cases pending with
      | nil => cases waiting
      | cons a pending =>
          obtain ⟨rfl, rest⟩ := List.cons.inj waiting
          have delivered := told.deliver (fewer _ few) time
            (q := { s.plugin with notifications := tail }) rest
          refine ⟨before ++ [a], _, times ++ [time], delivered.raise _ ?_⟩
          rw [← raised, Plugin.take, queue, List.erase_cons_head]

theorem Traced.tells_run {blocks : Nat} {labels : List TraceLabel} {s : Traced}
    (run : Run (SendableStep blocks) (init (.primitive (formatU blocks))) labels s) :
    s.Tells blocks (advancesOf labels) := by
  have one : ∀ past s label s', s.Tells blocks (advancesOf past) → SendableStep blocks s label s' →
      s'.Tells blocks (advancesOf (past ++ [label])) := fun past s label s' tells step => by
    simpa [advancesOf] using tells.step step
  have start : (init (.primitive (formatU blocks))).Tells blocks (advancesOf []) :=
    tells_init blocks
  exact run.history (P := fun past s => s.Tells blocks (advancesOf past)) one start

theorem Advance.entry_wellFormed {a : Advance} (wellFormed : a.notification.payload.WellFormed)
    (time : Timeabs) : (a.entry time).WellFormed := by
  have object : a.notification.entityObject = a.entityObject := by
    simp only [Notification.entityObject, entityObject, notification, runSystem, ecGetComponent_eq]
  have values := fun m member => (members_wellFormed wellFormed m member).2
  rw [Notification.payload, Json.tight, Json.members, List.forall_mem_cons,
    List.forall_mem_singleton] at values
  exact systraceObject_wellFormed time values.1 (object ▸ values.2)

/-- In every run in which no system asks for an attached component whose name cannot be a
    key: when no notification is on its way, `payecs_systrace` prints an entry for each
    advance of the entity that succeeded, in their order. -/
theorem systrace_is_history {blocks : Nat} {labels : List TraceLabel} {s : Traced}
    (run : Run (SendableStep blocks) (.init (.primitive (formatU blocks))) labels s)
    (few : (advancesOf labels).length ≤ 100000) (idle : s.plugin.notifications = []) :
    ∃ times : List Timeabs, times.length = (advancesOf labels).length ∧
      ∀ params entity, payecsSystraceArgs params = .ok entity →
        ∃ reply : Json, payecsSystrace s.systraces params = .ok reply.jsonTokFull ∧
          reply.WellFormed ∧
          reply = .tight [("entity".toList, .primitive (formatU entity.toNat)),
            ("trace".toList, .tightArray ((((advancesOf labels).zip times).filter
              fun d => d.1.entity = entity).map fun d => d.1.entry d.2))] := by
  have tells := Traced.tells_run run
  obtain ⟨before, pending, times, told⟩ := tells.told few
  have none : pending = [] := by
    have waiting := told.pending
    rw [idle] at waiting
    exact List.map_eq_nil_iff.mp waiting
  subst none
  have all : advancesOf labels = before := by rw [told.split, List.append_nil]
  rw [all] at tells ⊢
  refine ⟨times, told.each, fun params entity args => ⟨_, ?_, ?_, rfl⟩⟩
  · rw [payecsSystrace, args]
    refine congrArg Except.ok ((told.prints.text entity).trans ?_)
    rw [List.filter_map, List.map_map]
    rfl
  · have entries : ∀ e ∈ ((before.zip times).filter fun d => d.1.entity = entity).map
        fun d => d.1.entry d.2, e.WellFormed := by
      rw [List.forall_mem_map]
      intro d member
      obtain ⟨a, time⟩ := d
      have there := (List.of_mem_zip (List.mem_of_mem_filter member)).1
      exact Advance.entry_wellFormed (tells.written a there) time
    refine .tight ?_ ?_
    · simp only [List.forall_mem_cons]
      exact ⟨.of_plain rfl, .of_plain rfl, by simp⟩
    · simp only [List.forall_mem_cons]
      exact ⟨.formatU _, .tightArray entries, by simp⟩

/-- A second of some day. -/
def someTime : Timeabs := ⟨2022, 3, 4, 5, 6, 7, 8, by decide⟩

/-- The system `x` is run once. -/
theorem systrace_is_history_once :
    ∃ labels s a time, Run (SendableStep 2016) (.init (.primitive (formatU 2016))) labels s ∧
      advancesOf labels = [a] ∧
      payecsSystrace s.systraces (entityParams 1) = .ok (Json.tight [
        ("entity".toList, .primitive "1".toList),
        ("trace".toList, .tightArray [a.entry time])]).jsonTokFull := by
  let register : TraceEvent := .command (.newsystem (requiringParams "a".toList))
  let write : TraceEvent :=
    .command (.setcomponents (leftTo "a".toList (.primitive "42".toList) ["x".toList]))
  let advance : TraceEvent := .command (.advance (entityParams 1))
  let n := callsX "a".toList (.primitive "42".toList)
  let deliver : TraceEvent := .notification n n.payload (Vector.replicate 32 0) someTime
  have check : ((Traced.init (.primitive (formatU 2016))).step register).bind (fun s₁ =>
      (s₁.step write).bind fun s₂ => (s₂.step advance).bind fun s₃ => (s₃.step deliver).map fun s₄ =>
        (s₃.plugin.notifications, s₄.plugin.notifications,
          (advance.advances 2016 s₂.plugin).map Advance.entity,
          (deliver.advances 2016 s₃.plugin).length)) = .ok ([n], [], [1], 0) := by decide +kernel
  obtain ⟨s₁, registers, check⟩ := eq_of_bind_eq_ok check
  obtain ⟨s₂, writes, check⟩ := eq_of_bind_eq_ok check
  obtain ⟨s₃, advances, check⟩ := eq_of_bind_eq_ok check
  obtain ⟨s₄, delivers, check⟩ := eq_of_map_eq_ok check
  simp only [Prod.mk.injEq] at check
  obtain ⟨raised, idle, one, quiet⟩ := check
  obtain ⟨a, tail, single, entity, none⟩ := List.map_eq_cons_iff.mp one
  rw [List.map_eq_nil_iff] at none
  subst none
  have answer : (Json.primitive "42".toList).WellFormed := .formatU 42
  have name : StringText "a".toList := .of_plain rfl
  have args : payecsNewsystemArgs (requiringParams "a".toList) =
      .ok ("x".toList, ["a".toList], []) := rfl
  have run : Run (SendableStep 2016) (.init (.primitive (formatU 2016)))
      [⟨register, []⟩, ⟨write, []⟩, ⟨advance, [a]⟩, ⟨deliver, []⟩] s₄ := by
    refine .cons ⟨⟨⟨nofun, requiringParams_wellFormed name⟩, registers, rfl⟩, ?_⟩
      (.cons ⟨⟨⟨nofun, leftTo_wellFormed name answer _⟩, writes, rfl⟩, trivial⟩
        (.cons ⟨⟨⟨nofun, entityParams_wellFormed 1⟩, advances, single.symm⟩, trivial⟩
          (.cons ⟨⟨⟨?_, ?_, (runSystemText_eq n).symm⟩, delivers, ?_⟩, ?_⟩ .nil)))
    · intro system required disallowed same component member
      rw [args] at same
      cases same
      rw [List.mem_singleton.mp member]
      exact .inl name
    · rw [raised]
      rfl
    · exact n.payload_wellFormed (List.forall_mem_singleton.mpr name)
        (List.forall_mem_singleton.mpr answer)
    · exact (List.length_eq_zero_iff.mp quiet).symm
    · intro system
      exact absurd system (by decide)
  obtain ⟨times, each, prints⟩ := systrace_is_history run (by simp [advancesOf]) idle
  obtain ⟨time, rfl⟩ := List.length_eq_one_iff.mp each
  obtain ⟨reply, printed, -, rfl⟩ := prints (entityParams 1) 1 rfl
  refine ⟨_, s₄, a, time, run, rfl, printed.trans ?_⟩
  simp [advancesOf, entity]
  rfl

/-- `x` asks for a component whose name holds quotes, which a promoted type attaches.  What
    is delivered for it is JSON, but the component is not in it. -/
theorem systrace_misses_promoted_component :
    ∃ (labels : List TraceLabel) (s : Traced) (reply entry : Json) (entries : List Json)
      (a : Advance) (component : Text),
      Run (Traced.Step 2016) (.init (.primitive (formatU 2016))) labels s ∧
      (advancesOf labels).length ≤ 100000 ∧ s.plugin.notifications = [] ∧
      payecsSystrace s.systraces (entityParams 1) = .ok reply.jsonTokFull ∧ reply.WellFormed ∧
      reply.jsonGetMember "trace".toList = some (.tightArray entries) ∧
      entries.getLast? = some entry ∧ (advancesOf labels).getLast? = some a ∧ a.entity = 1 ∧
      component ∈ a.system.requiredComponents ∧
      ((entry.jsonGetMember "entity".toList).bind fun entity =>
        entity.jsonGetMember component) = none := by
  let register : TraceEvent := .command splitRegister
  let write : TraceEvent := .command splitWrite
  let advance : TraceEvent := .command (.advance (entityParams 1))
  let n := promotesSplit
  let deliver : TraceEvent := .notification n n.payload (Vector.replicate 32 0) someTime
  let m := callsX splitName trueDatum
  let deliver' : TraceEvent := .notification m splitPayload (Vector.replicate 32 0) someTime
  let first := systraceObject someTime (.string n.system) n.entityObject
  let second := systraceObject someTime (.string "x".toList) splitObject
  let reply : Json := .tight [("entity".toList, .primitive "1".toList),
    ("trace".toList, .tightArray [first, second])]
  have check : ((Traced.init (.primitive (formatU 2016))).step register).bind (fun s₁ =>
      (s₁.step write).bind fun s₂ => (s₂.step advance).bind fun s₃ =>
        (s₃.step deliver).bind fun s₄ => (s₄.step deliver').map fun s₅ =>
          (([s₃.plugin.notifications, s₄.plugin.notifications, s₅.plugin.notifications],
            [(advance.advances 2016 s₂.plugin).length, (deliver'.advances 2016 s₄.plugin).length]),
            (deliver.advances 2016 s₃.plugin).map (fun a => (a.entity, a.system)),
            payecsSystraceText s₅.systraces 1)) =
      .ok (([[n], [m], []], [1, 0]), [(1, ⟨"x".toList, [splitName], []⟩)], reply.jsonTokFull) := by
    decide +kernel
  obtain ⟨s₁, registers, check⟩ := eq_of_bind_eq_ok check
  obtain ⟨s₂, writes, check⟩ := eq_of_bind_eq_ok check
  obtain ⟨s₃, advances, check⟩ := eq_of_bind_eq_ok check
  obtain ⟨s₄, delivers, check⟩ := eq_of_bind_eq_ok check
  obtain ⟨s₅, delivers', check⟩ := eq_of_map_eq_ok check
  simp only [Prod.mk.injEq, List.cons.injEq, and_true] at check
  obtain ⟨⟨⟨raised, raised', idle⟩, one, quiet⟩, selected, printed⟩ := check
  obtain ⟨b, promoted⟩ := List.length_eq_one_iff.mp one
  obtain ⟨a, tail, single, system, none⟩ := List.map_eq_cons_iff.mp selected
  rw [List.map_eq_nil_iff] at none
  subst none
  simp only [Prod.mk.injEq] at system
  have comp : StringText promotedComp := .of_plain rfl
  have oneOk : (Json.primitive "1".toList).WellFormed := .formatU 1
  have nOk : n.payload.WellFormed := n.payload_wellFormed (List.forall_mem_singleton.mpr comp)
    (List.forall_mem_singleton.mpr splittingType_wellFormed)
  have run : Run (Traced.Step 2016) (.init (.primitive (formatU 2016)))
      [⟨register, []⟩, ⟨write, []⟩, ⟨advance, [b]⟩, ⟨deliver, [a]⟩, ⟨deliver', []⟩] s₅ := by
    refine .cons ⟨⟨nofun, requiringParams_wellFormed (stringText_jsonEscape splitName)⟩,
      registers, rfl⟩
      (.cons ⟨⟨nofun, leftTo_wellFormed comp splittingType_wellFormed _⟩, writes, rfl⟩
        (.cons ⟨⟨nofun, entityParams_wellFormed 1⟩, advances, promoted.symm⟩
          (.cons ⟨⟨?_, nOk, (runSystemText_eq n).symm⟩, delivers, single.symm⟩
            (.cons ⟨⟨?_, splitPayload_wellFormed, ?_⟩, delivers', ?_⟩ .nil))))
    · rw [raised]
      rfl
    · rw [raised']
      rfl
    · decide +kernel
    · exact (List.length_eq_zero_iff.mp quiet).symm
  have entriesOk : ∀ e ∈ [first, second], e.WellFormed := by
    have member : ("entity".toList, n.entityObject) ∈ n.payload.members :=
      List.mem_cons_of_mem _ (List.mem_singleton.mpr rfl)
    have nObjectOk := (members_wellFormed nOk _ member).2
    simp only [List.forall_mem_cons]
    exact ⟨systraceObject_wellFormed _ (.string (.of_plain rfl)) nObjectOk,
      systraceObject_wellFormed _ (.string (.of_plain rfl)) splitObject_wellFormed, by simp⟩
  have args : payecsSystraceArgs (entityParams 1) = .ok 1 := rfl
  refine ⟨_, s₅, reply, second, [first, second], a, splitName, run, by simp [advancesOf], idle,
    ?_, ?_, rfl, rfl, rfl, system.1, ?_, ?_⟩
  · rw [payecsSystrace, args, ← printed]
    rfl
  · refine .tight ?_ ?_
    · simp only [List.forall_mem_cons]
      exact ⟨.of_plain rfl, .of_plain rfl, by simp⟩
    · simp only [List.forall_mem_cons]
      exact ⟨oneOk, .tightArray entriesOk, by simp⟩
  · rw [system.2]
    exact List.mem_singleton.mpr rfl
  · decide +kernel

end Payz
