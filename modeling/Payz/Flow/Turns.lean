import Payz.Plugin.Steps

/-! # The default payment flow

One entity with the default systems, left to itself after a client has advanced it: each
notification is delivered and each request answered before anything else happens.  At
any time the flow is in one of four phases, and the table decides which comes next.
-/

namespace Payz

/-- What the plugin is answered during a flow. -/
structure Answers where
  nonce : Nonce
  decode : Json → DecodeReply

/-- A flow under way: the plugin, the systems invoked so far and what the last step
    reported. -/
structure Flow where
  plugin : Plugin
  invocations : Nat
  report : Option Int

/-- The flow that a step of the plugin leads to. -/
def Flow.after (invocations : Nat) (done : Plugin × Output) : Flow :=
  ⟨done.1, invocations, done.2.error⟩

def flowStart (p : Plugin) (params : Json) : Except Fault Flow :=
  (p.step (.advance params)).map (Flow.after 0)

/-- One turn: whatever is on its way arrives. -/
def flowStep (answers : Answers) (flow : Flow) : Except Fault Flow :=
  match flow.plugin.notifications, flow.plugin.requests with
  | n :: _, _ =>
      (flow.plugin.step (.notify n answers.nonce)).map (Flow.after (flow.invocations + 1))
  | [], request :: _ =>
      (flow.plugin.step (.decoded request (answers.decode request.string))).map
        (Flow.after flow.invocations)
  | [], [] => .ok flow

def flowRun (answers : Answers) : Nat → Flow → Except Fault Flow
  | 0, flow => .ok flow
  | turns + 1, flow =>
      match flowStep answers flow with
      | .error fault => .error fault
      | .ok flow => flowRun answers turns flow

def firstMatch (ec : Ec) (entity : UInt32) : Option EcsSystemFunction :=
  builtins.find? fun func => systemMatches ec entity func.registered

/-! ## The first match -/

theorem systemMatches_congr {ec ec' : Ec} {entity : UInt32}
    (same : ∀ component, (ec'.cell entity component).isSome = (ec.cell entity component).isSome)
    (system : EcsysRegistered) :
    systemMatches ec' entity system = systemMatches ec entity system := by
  rw [Bool.eq_iff_iff, systemMatches_iff, systemMatches_iff]
  exact ⟨fun hit => hit.congr fun component _ => (same component).symm,
    fun hit => hit.congr fun component _ => same component⟩

theorem firstMatch_congr {ec ec' : Ec} {entity : UInt32}
    (same : ∀ component, (ec'.cell entity component).isSome = (ec.cell entity component).isSome) :
    firstMatch ec' entity = firstMatch ec entity := by
  simp only [firstMatch, systemMatches_congr same]

theorem firstMatch_none {ec : Ec} {entity : UInt32} (none : firstMatch ec entity = none)
    (func : EcsSystemFunction) : ¬ Matches ec entity func.registered := by
  rw [← systemMatches_iff]
  exact List.find?_eq_none.mp none func (mem_builtins func)

theorem firstMatch_some {ec : Ec} {entity : UInt32} {func : EcsSystemFunction}
    (first : firstMatch ec entity = some func) : Matches ec entity func.registered := by
  unfold firstMatch at first
  have hit := List.find?_some first
  exact (systemMatches_iff _ _ _).mp hit

theorem firstMatch_mem {ec : Ec} {entity : UInt32} {func : EcsSystemFunction}
    {before after : List EcsSystemFunction} (order : builtins = before ++ func :: after)
    (hit : Matches ec entity func.registered) :
    ∃ first ∈ before ++ [func], firstMatch ec entity = some first := by
  rw [← systemMatches_iff] at hit
  rw [firstMatch, order, List.find?_append]
  cases earlier : before.find? fun func => systemMatches ec entity func.registered with
  | none => exact ⟨func, by simp, by simp [hit]⟩
  | some first =>
      exact ⟨first, List.mem_append_left _ (List.mem_of_find?_eq_some earlier), by simp⟩

theorem searchSystem_builtins {systems : SystemMap} {ec : Ec} {entity : UInt32}
    (registered : ∀ func : EcsSystemFunction, systems.map[func.name]? = some func.registered)
    (funcs : List EcsSystemFunction) (i : Nat) :
    (funcs.find? (fun func => systemMatches ec entity func.registered) = none ∧
      searchSystem systems ec entity i (funcs.map EcsSystemFunction.name) = .none) ∨
    ∃ func current, funcs.find? (fun func => systemMatches ec entity func.registered) = some func ∧
      searchSystem systems ec entity i (funcs.map EcsSystemFunction.name) =
        .found current func.registered := by
  induction funcs generalizing i with
  | nil => exact .inl ⟨rfl, rfl⟩
  | cons func funcs ih =>
      simp only [List.map_cons, searchSystem, registered, List.find?_cons]
      cases hit : systemMatches ec entity func.registered with
      | true => exact .inr ⟨func, i, rfl, rfl⟩
      | false => simpa using ih (i + 1)

theorem advanceSpec_default {systems : SystemMap} {ec : Ec} {entity : UInt32}
    (registered : ∀ func : EcsSystemFunction, systems.map[func.name]? = some func.registered)
    (named : NamesSystems ec entity defaultSystems) :
    ((advanceSpec systems ec entity).emitted =
        (firstMatch (advanceSpec systems ec entity).ec entity).toList.map fun func =>
          runSystem (advanceSpec systems ec entity).ec entity func.registered) ∧
      (advanceSpec systems ec entity).error =
        (firstMatch (advanceSpec systems ec entity).ec entity).elim (some 2201) fun _ => none := by
  rw [firstMatch_congr (isSome_cell_advanceSpec named)]
  have names := (namesSystems_iff ec entity defaultSystems).mpr named
  rw [firstMatch]
  rcases @searchSystem_builtins systems ec entity registered builtins 0 with
    ⟨none, search⟩ | ⟨func, current, first, search⟩
  · rw [← defaultSystems_eq] at search
    simp only [none, advanceSpec, names, search]
    exact ⟨rfl, rfl⟩
  · rw [← defaultSystems_eq] at search
    simp only [first, advanceSpec, names, search]
    exact ⟨rfl, rfl⟩

/-! ## The phases of a flow -/

/-- Where a flow stands. -/
inductive Phase where
  | notified (func : EcsSystemFunction)
  | decoding (string : Json)
  | exhausted
  | stopped

namespace Phase

def notifications (ec : Ec) (entity : UInt32) : Phase → List Notification
  | .notified func => [runSystem ec entity func.registered]
  | _ => []

def requests (entity : UInt32) : Phase → List DecodeRequest
  | .decoding string => [⟨entity, string⟩]
  | _ => []

/-- What the last step has reported. -/
def report : Phase → Option Int
  | .exhausted => some 2201
  | _ => none

/-- What the phase says about the table. -/
def Fits (ec : Ec) (entity : UInt32) : Phase → Prop
  | .notified func => NamesSystems ec entity defaultSystems ∧ firstMatch ec entity = some func
  | .decoding _ => NamesSystems ec entity defaultSystems
  | .exhausted => NamesSystems ec entity defaultSystems ∧ firstMatch ec entity = none
  | .stopped => ec.cell entity syscomp = none

end Phase

structure Flow.At (blocks : Nat) (entity : UInt32) (flow : Flow) (phase : Phase) : Prop where
  ok : flow.plugin.Ok blocks
  notifications : flow.plugin.notifications = phase.notifications flow.plugin.ec entity
  requests : flow.plugin.requests = phase.requests entity
  report : flow.report = phase.report
  fits : phase.Fits flow.plugin.ec entity

/-- The phase that an effect leads to, by the table it leaves. -/
def Effect.next (effect : Effect) (ec : Ec) (entity : UInt32) : Phase :=
  match effect.ending with
  | .advance => (firstMatch ec entity).elim .exhausted .notified
  | .done => .stopped
  | .decode string => .decoding string

/-! ## A turn leads from phase to phase -/

/-- What a sound effect raises is what the phase it leads to says. -/
theorem Effect.Sound.next {effect : Effect} (sound : effect.Sound) {systems : SystemMap} {ec : Ec}
    {entity : UInt32}
    (registered : ∀ func : EcsSystemFunction, systems.map[func.name]? = some func.registered)
    (named : NamesSystems ec entity defaultSystems) {outcome : Outcome}
    (comes : effect.outcome systems ec entity = outcome) :
    outcome.emitted = (effect.next outcome.ec entity).notifications outcome.ec entity ∧
      outcome.requests = (effect.next outcome.ec entity).requests entity ∧
      outcome.logged = (effect.next outcome.ec entity).report ∧
      (effect.next outcome.ec entity).Fits outcome.ec entity := by
  subst comes
  have written : effect.ending ≠ .done →
      NamesSystems (ec.setAll entity effect.writes) entity defaultSystems :=
    fun goes => named.of_member (sound.systemsMember_setAll ec entity goes)
  unfold outcome Effect.next
  cases ends : effect.ending with
  | advance =>
      have named := written (by simp [ends])
      obtain ⟨emitted, error⟩ := advanceSpec_default registered named
      have after : NamesSystems (advanceSpec systems (ec.setAll entity effect.writes) entity).ec
          entity defaultSystems := namesSystems_advanceSpec named
      simp only [emitted, error]
      cases first : firstMatch (advanceSpec systems (ec.setAll entity effect.writes) entity).ec
          entity with
      | none => exact ⟨rfl, rfl, rfl, after, first⟩
      | some func => exact ⟨rfl, rfl, rfl, after, first⟩
  | done =>
      have detached := sound.detached systems ec entity ends
      rw [outcome, ends] at detached
      exact ⟨rfl, rfl, rfl, detached⟩
  | decode string => exact ⟨rfl, rfl, rfl, written (by simp [ends])⟩

/-- The flow after an effect: its phase, and its table but for `lightningd:systems`. -/
structure Flow.Turned (blocks : Nat) (entity : UInt32) (effect : Effect) (before after : Flow) :
    Prop where
  stands : after.At blocks entity (effect.next after.plugin.ec entity)
  cells : ∀ component, syscomp ≠ component → after.plugin.ec.cell entity component =
    (before.plugin.ec.setAll entity effect.writes).cell entity component

theorem Flow.turned_of_step (before : Flow) {blocks : Nat} {entity : UInt32} {effect : Effect}
    {event : Event} {q : Plugin} (ran : before.plugin.step event =
      .ok (q.take (effect.outcome before.plugin.regs.ecs.systems before.plugin.ec entity)))
    (admissible : event.Admissible before.plugin) (ok : before.plugin.Ok blocks)
    (named : NamesSystems before.plugin.ec entity defaultSystems) (sound : effect.Sound)
    (notifications : q.notifications = []) (requests : q.requests = []) (invocations : Nat) :
    Turned blocks entity effect before (after invocations
      (q.take (effect.outcome before.plugin.regs.ecs.systems before.plugin.ec entity))) := by
  have step : before.plugin.Step ⟨event, _⟩ _ := ⟨admissible, ran⟩
  have kept := ok.step step
  obtain ⟨emitted, sent, logged, fits⟩ := sound.next ok.agree.builtins.systems named rfl
  refine ⟨⟨kept, ?_, ?_, logged, fits⟩, fun component differ => ?_⟩
  · simp only [after, Plugin.take, notifications, List.nil_append]
    exact emitted
  · simp only [after, Plugin.take, requests, List.nil_append]
    exact sent
  · exact effect.cell_outcome _ _ _ (by simp [differ])

theorem Flow.starts {blocks : Nat} {entity : UInt32} {p : Plugin} (ok : p.Ok blocks)
    (notifications : p.notifications = []) (requests : p.requests = [])
    (named : NamesSystems p.ec entity defaultSystems) {params : Json}
    (wellFormed : params.WellFormed) (args : payecsAdvanceArgs params = .ok entity) :
    ∃ flow, flowStart p params = .ok flow ∧ flow.invocations = 0 ∧
      Turned blocks entity ⟨[], .advance⟩ ⟨p, 0, none⟩ flow := by
  obtain ⟨reply, advanced⟩ := payecsAdvance_eq p.regs.ecs.systems ok.data args
  have ran : p.step (.advance params) =
      .ok (p.take (Effect.outcome ⟨[], .advance⟩ p.regs.ecs.systems p.ec entity)) := by
    rw [Plugin.step, advanced]
    rfl
  have sound : Effect.Sound ⟨[], .advance⟩ := ⟨by simp, fun ends => by cases ends⟩
  have turned := turned_of_step ⟨p, 0, none⟩ ran wellFormed ok named sound notifications requests 0
  exact ⟨_, by rw [flowStart, ran]; rfl, rfl, turned⟩

theorem Flow.At.notified_turn {blocks : Nat} {entity : UInt32} {flow : Flow}
    {func : EcsSystemFunction} (stands : flow.At blocks entity (.notified func))
    (answers : Answers) :
    ∃ after, flowStep answers flow = .ok after ∧ after.invocations = flow.invocations + 1 ∧
      flow.Turned blocks entity
        (func.effect answers.nonce blocks (flow.plugin.ec.current entity)) after := by
  have notifications : flow.plugin.notifications =
      [runSystem flow.plugin.ec entity func.registered] := stands.notifications
  have called := ecsSystemDeliver_builtin stands.ok.agree.builtins answers.nonce blocks stands.ok.data
    stands.ok.data entity func
  rw [← stands.ok.maxdelay] at called
  have ran : flow.plugin.step (.notify (runSystem flow.plugin.ec entity func.registered)
      answers.nonce) = .ok (Plugin.take { flow.plugin with notifications := [] }
        ((func.effect answers.nonce blocks (flow.plugin.ec.current entity)).outcome
          flow.plugin.regs.ecs.systems flow.plugin.ec entity)) := by
    rw [Plugin.step, called, notifications, List.erase_cons_head]
    rfl
  have admissible : (Event.notify (runSystem flow.plugin.ec entity func.registered)
      answers.nonce).Admissible flow.plugin := by
    rw [Event.Admissible, notifications]
    exact List.mem_singleton.mpr rfl
  have turned := turned_of_step flow ran admissible stands.ok stands.fits.1
    (func.effect_sound _ _ _) rfl stands.requests (flow.invocations + 1)
  have turn : flowStep answers flow = (flow.plugin.step (.notify (runSystem flow.plugin.ec entity
      func.registered) answers.nonce)).map (after (flow.invocations + 1)) := by
    simp only [flowStep, notifications]
  rw [ran] at turn
  exact ⟨_, turn, rfl, turned⟩

theorem Flow.At.decoding_turn {blocks : Nat} {entity : UInt32} {flow : Flow} {string : Json}
    (stands : flow.At blocks entity (.decoding string)) {answers : Answers}
    (wellFormed : (answers.decode string).WellFormed) :
    ∃ after, flowStep answers flow = .ok after ∧ after.invocations = flow.invocations ∧
      flow.Turned blocks entity (answers.decode string).effect after := by
  have notifications : flow.plugin.notifications = [] := stands.notifications
  have requests : flow.plugin.requests = [⟨entity, string⟩] := stands.requests
  have ran : flow.plugin.step (.decoded ⟨entity, string⟩ (answers.decode string)) =
      .ok (Plugin.take { flow.plugin with requests := [] }
        ((answers.decode string).effect.outcome flow.plugin.regs.ecs.systems flow.plugin.ec
          entity)) := by
    rw [stands.ok.decoded ⟨entity, string⟩ wellFormed, requests, List.erase_cons_head]
  have admissible : (Event.decoded ⟨entity, string⟩ (answers.decode string)).Admissible
      flow.plugin := by
    rw [Event.Admissible, requests]
    exact ⟨List.mem_singleton.mpr rfl, wellFormed⟩
  have turned := turned_of_step flow ran admissible stands.ok stands.fits
    (answers.decode string).effect_sound notifications rfl flow.invocations
  have turn : flowStep answers flow = (flow.plugin.step (.decoded ⟨entity, string⟩
      (answers.decode string))).map (after flow.invocations) := by
    simp only [flowStep, notifications, requests]
  rw [ran] at turn
  exact ⟨_, turn, rfl, turned⟩

def Phase.Resting : Phase → Prop
  | .exhausted | .stopped => True
  | _ => False

/-- What one turn does, from phase to phase. -/
inductive Flow.Went (answers : Answers) (blocks : Nat) (entity : UInt32) :
    Flow → Phase → Flow → Phase → Prop where
  | ran {flow after : Flow} {func : EcsSystemFunction} :
      after.invocations = flow.invocations + 1 →
      flow.Turned blocks entity (func.effect answers.nonce blocks (flow.plugin.ec.current entity))
        after →
      Went answers blocks entity flow (.notified func) after
        ((func.effect answers.nonce blocks (flow.plugin.ec.current entity)).next after.plugin.ec
          entity)
  | answered {flow after : Flow} {string : Json} : after.invocations = flow.invocations →
      flow.Turned blocks entity (answers.decode string).effect after →
      Went answers blocks entity flow (.decoding string) after
        ((answers.decode string).effect.next after.plugin.ec entity)
  | rested {flow : Flow} {phase : Phase} : phase.Resting →
      Went answers blocks entity flow phase flow phase

section Runs

variable {answers : Answers} {blocks : Nat} {entity : UInt32}

theorem Flow.At.turn (replies : ∀ string, (answers.decode string).WellFormed) {flow : Flow}
    {phase : Phase} (stands : flow.At blocks entity phase) :
    ∃ after phase', flowStep answers flow = .ok after ∧ after.At blocks entity phase' ∧
      Went answers blocks entity flow phase after phase' := by
  have idle : phase.Resting → flow.plugin.notifications = [] ∧ flow.plugin.requests = [] →
      ∃ after phase', flowStep answers flow = .ok after ∧ after.At blocks entity phase' ∧
        Went answers blocks entity flow phase after phase' := by
    intro resting nothing
    exact ⟨flow, phase, by simp only [flowStep, nothing.1, nothing.2], stands, .rested resting⟩
  cases phase with
  | notified func =>
      obtain ⟨after, turn, invocations, turned⟩ := stands.notified_turn answers
      exact ⟨after, _, turn, turned.stands, .ran invocations turned⟩
  | decoding string =>
      obtain ⟨after, turn, invocations, turned⟩ := stands.decoding_turn (replies string)
      exact ⟨after, _, turn, turned.stands, .answered invocations turned⟩
  | exhausted => exact idle trivial ⟨stands.notifications, stands.requests⟩
  | stopped => exact idle trivial ⟨stands.notifications, stands.requests⟩

/-- What every turn keeps holds after any number of turns, none of which aborts. -/
theorem Flow.At.run (replies : ∀ string, (answers.decode string).WellFormed)
    {P : Flow → Phase → Prop}
    (keeps : ∀ {flow phase after phase'}, flow.At blocks entity phase → P flow phase →
      Went answers blocks entity flow phase after phase' → P after phase')
    {flow : Flow} {phase : Phase} (stands : flow.At blocks entity phase) (start : P flow phase)
    (turns : Nat) :
    ∃ after phase', flowRun answers turns flow = .ok after ∧ after.At blocks entity phase' ∧
      P after phase' := by
  induction turns generalizing flow phase with
  | zero => exact ⟨flow, phase, rfl, stands, start⟩
  | succ turns ih =>
      obtain ⟨next, phase', turn, stands', went⟩ := stands.turn replies
      obtain ⟨after, phase'', ran, rest⟩ := ih stands' (keeps stands start went)
      exact ⟨after, phase'', by rw [flowRun, turn]; exact ran, rest⟩

theorem Flow.At.rests (replies : ∀ string, (answers.decode string).WellFormed)
    {P : Flow → Phase → Prop} (measure : Flow → Phase → Nat)
    (keeps : ∀ {flow phase after phase'}, flow.At blocks entity phase → P flow phase →
      Went answers blocks entity flow phase after phase' → P after phase')
    (less : ∀ {flow phase after phase'}, flow.At blocks entity phase → P flow phase →
      Went answers blocks entity flow phase after phase' → ¬ phase.Resting →
        measure after phase' < measure flow phase)
    {flow : Flow} {phase : Phase} (stands : flow.At blocks entity phase) (start : P flow phase) :
    ∃ turns after phase', flowRun answers turns flow = .ok after ∧
      after.At blocks entity phase' ∧ P after phase' ∧ phase'.Resting := by
  induction bound : measure flow phase using Nat.strongRecOn generalizing flow phase with
  | ind size ih =>
      by_cases resting : phase.Resting
      · exact ⟨0, flow, phase, rfl, stands, start, resting⟩
      · obtain ⟨next, phase', turn, stands', went⟩ := stands.turn replies
        have smaller := less stands start went resting
        rw [bound] at smaller
        obtain ⟨turns, after, phase'', ran, rest⟩ := ih _ smaller stands' (keeps stands start went) rfl
        exact ⟨turns + 1, after, phase'', by rw [flowRun, turn]; exact ran, rest⟩

end Runs

end Payz
