import Mathlib.Data.List.Perm.Basic
import Payz.Plugin.Sendable

/-! # The implicit lock on an entity

`doc/PAYECS.md`: whoever a notification is delivered to has the entity to itself until it
advances the entity.  The lock is nowhere in the code.  It follows from how everyone
behaves: something on its way for an entity is worked on by one party only, and is gone
before the next thing is on its way.
-/

namespace Payz

open Runs

/-- The plugin, and the entities that systems of other plugins are working on. -/
structure Locked where
  plugin : Plugin
  held : List UInt32

def Plugin.count (p : Plugin) (entity : UInt32) : Nat :=
  p.notifications.countP (fun n => n.entity == entity) +
    p.requests.countP (fun request => request.entity == entity)

/-- What is in flight for an entity: a notification, a request or a system of another
    plugin that holds it. -/
def Locked.inFlight (s : Locked) (entity : UInt32) : Nat :=
  s.plugin.count entity + s.held.count entity

/-- A command, by a client or by the system of another plugin that holds an entity; a
    system that is done without advancing; something that arrives. -/
inductive Move where
  | client (label : Label)
  | external (entity : UInt32) (label : Label)
  | release (entity : UInt32)
  | arrives (label : Label)

def Event.IsCommand : Event → Prop
  | .notify _ _ | .decoded _ _ => False
  | _ => True

def Move.IsWrite : Move → Prop
  | .client label | .external _ label => label.event.IsWrite
  | _ => False

namespace Locked

def init (blocks : Nat) : Locked := ⟨.init (.primitive (formatU blocks)), []⟩

/-- A notification that no function of the plugin is called for goes to another
    plugin, if it is JSON. -/
def heldAfter (s : Locked) (n : Notification) : List UInt32 :=
  if n.delivered.isSome ∧ (ecsSystemCalled s.plugin.regs.ecs n).isNone then n.entity :: s.held
  else s.held

theorem heldAfter_cases (s : Locked) (n : Notification) :
    s.heldAfter n = s.held ∨ s.heldAfter n = n.entity :: s.held := by
  unfold heldAfter
  split_ifs
  · exact .inr rfl
  · exact .inl rfl

/-- The moves of those who respect the lock. -/
inductive Step : Locked → Move → Locked → Prop where
  | client {s : Locked} {label : Label} {p : Plugin} : label.event.IsCommand →
      (∀ entity ∈ label.event.entities, s.inFlight entity = 0) → s.plugin.Step label p →
      Step s (.client label) ⟨p, s.held⟩
  | writes {s : Locked} {entity : UInt32} {label : Label} {p : Plugin} : entity ∈ s.held →
      label.event.IsWrite →
      (∀ other ∈ label.event.entities, other = entity ∨ s.inFlight other = 0) →
      s.plugin.Step label p → Step s (.external entity label) ⟨p, s.held⟩
  | advances {s : Locked} {entity : UInt32} {params : Json} {output : Output} {p : Plugin} :
      entity ∈ s.held → payecsAdvanceArgs params = .ok entity →
      s.plugin.Step ⟨.advance params, output⟩ p →
      Step s (.external entity ⟨.advance params, output⟩) ⟨p, s.held.erase entity⟩
  | releases {s : Locked} {entity : UInt32} : entity ∈ s.held →
      Step s (.release entity) ⟨s.plugin, s.held.erase entity⟩
  | notified {s : Locked} {n : Notification} {nonce : Nonce} {output : Output} {p : Plugin} :
      s.plugin.Step ⟨.notify n nonce, output⟩ p →
      Step s (.arrives ⟨.notify n nonce, output⟩) ⟨p, s.heldAfter n⟩
  | decoded {s : Locked} {request : DecodeRequest} {reply : DecodeReply} {output : Output}
      {p : Plugin} : s.plugin.Step ⟨.decoded request reply, output⟩ p →
      Step s (.arrives ⟨.decoded request reply, output⟩) ⟨p, s.held⟩

/-- The lock: one item at most in flight for an entity, and a notification says what the
    table says. -/
structure Ok (blocks : Nat) (s : Locked) : Prop where
  ok : s.plugin.Ok blocks
  single : ∀ entity, s.inFlight entity ≤ 1
  current : ∀ n ∈ s.plugin.notifications, n.Current s.plugin.regs.ecs.systems s.plugin.ec

theorem ok_init (blocks : Nat) : (init blocks).Ok blocks where
  ok := Plugin.ok_init blocks
  single entity := by simp [init, inFlight, Plugin.count, Plugin.init]
  current := by simp [init, Plugin.init]

end Locked

/-! ## Counting -/

theorem Plugin.count_erase_notification (p : Plugin) {n : Notification}
    (member : n ∈ p.notifications) (entity : UInt32) :
    Plugin.count { p with notifications := p.notifications.erase n } entity +
      (if n.entity = entity then 1 else 0) = p.count entity := by
  have split := (List.perm_cons_erase member).countP_eq fun n => n.entity == entity
  rw [List.countP_cons] at split
  simp only [beq_iff_eq] at split
  simp only [Plugin.count, split]
  omega

theorem Plugin.count_erase_request (p : Plugin) {request : DecodeRequest}
    (member : request ∈ p.requests) (entity : UInt32) :
    Plugin.count { p with requests := p.requests.erase request } entity +
      (if request.entity = entity then 1 else 0) = p.count entity := by
  have split := (List.perm_cons_erase member).countP_eq fun request => request.entity == entity
  rw [List.countP_cons] at split
  simp only [beq_iff_eq] at split
  simp only [Plugin.count, split]
  omega

theorem Plugin.count_pos {p : Plugin} {n : Notification} (member : n ∈ p.notifications) :
    0 < p.count n.entity := by
  have positive : 0 < p.notifications.countP (fun other => other.entity == n.entity) :=
    List.countP_pos_iff.mpr ⟨n, member, by simp⟩
  exact Nat.lt_of_lt_of_le positive (Nat.le_add_right _ _)

theorem Plugin.count_pos_request {p : Plugin} {request : DecodeRequest}
    (member : request ∈ p.requests) : 0 < p.count request.entity := by
  have positive : 0 < p.requests.countP (fun other => other.entity == request.entity) :=
    List.countP_pos_iff.mpr ⟨request, member, by simp⟩
  exact Nat.lt_of_lt_of_le positive (Nat.le_add_left _ _)

theorem count_erase_held {held : List UInt32} {entity : UInt32} (member : entity ∈ held)
    (other : UInt32) :
    (held.erase entity).count other + (if entity = other then 1 else 0) = held.count other := by
  have split := (List.perm_cons_erase member).count_eq other
  rw [List.count_cons] at split
  simp only [beq_iff_eq] at split
  exact split.symm

/-- An effect puts one item on its way for its entity, and none for any other. -/
theorem Effect.count_take (effect : Effect) (systems : SystemMap) (ec : Ec) (entity : UInt32)
    (q : Plugin) :
    (q.take (effect.outcome systems ec entity)).1.count entity ≤ q.count entity + 1 ∧
      ∀ other, other ≠ entity →
        (q.take (effect.outcome systems ec entity)).1.count other = q.count other := by
  simp only [Plugin.take, Plugin.count, List.countP_append]
  rcases effect.outcome_cases systems ec entity with ⟨none, few, mine⟩ | ⟨n, one, none, mine, -⟩
  · refine ⟨?_, fun other differ => ?_⟩
    · have bound := List.countP_le_length
        (p := fun request : DecodeRequest => request.entity == entity)
        (l := (effect.outcome systems ec entity).requests)
      simp only [none, List.countP_nil]
      omega
    · have absent : (effect.outcome systems ec entity).requests.countP
          (fun request => request.entity == other) = 0 := by
        rw [List.countP_eq_zero]
        intro request member same
        exact differ ((beq_iff_eq.mp same).symm.trans (mine request member))
      simp [none, absent]
  · refine ⟨?_, fun other differ => ?_⟩
    · have bound := List.countP_le_length (p := fun n : Notification => n.entity == entity)
        (l := [n])
      simp only [one, none, List.countP_nil]
      simp only [List.length_singleton] at bound
      omega
    · simp [one, none, mine, differ.symm]

/-! ## What a move can do -/

/-- Someone works on an entity: `q` is the state without the item that brought it about,
    and holds nothing else for the entity. -/
structure Locked.Works (s q : Locked) (entity : UInt32) (effect : Effect) (s' : Locked) : Prop where
  free : q.inFlight entity = 0
  others : ∀ other, other ≠ entity → q.inFlight other = s.inFlight other
  sub : ∀ n ∈ q.plugin.notifications, n ∈ s.plugin.notifications
  regs : q.plugin.regs = s.plugin.regs
  took : s'.plugin =
    (q.plugin.take (effect.outcome s.plugin.regs.ecs.systems s.plugin.ec entity)).1
  held : s'.held = q.held

/-- Nothing new is on its way, and what is on its way is not touched. -/
structure Locked.Settles (s s' : Locked) : Prop where
  inFlight : ∀ entity, s'.inFlight entity ≤ s.inFlight entity
  sub : ∀ n ∈ s'.plugin.notifications, n ∈ s.plugin.notifications
  more : s.plugin.regs.ecs.systems.Extends s'.plugin.regs.ecs.systems
  frame : ∀ n ∈ s'.plugin.notifications, ∀ component,
    s'.plugin.ec.cell n.entity component = s.plugin.ec.cell n.entity component

def Move.label : Move → Option Label
  | .client label | .external _ label | .arrives label => some label
  | .release _ => none

theorem Locked.Ok.free_of_held {blocks : Nat} {s : Locked} (ok : s.Ok blocks) {entity : UInt32}
    (member : entity ∈ s.held) : s.plugin.count entity = 0 := by
  have single := ok.single entity
  have positive : 0 < s.held.count entity := List.count_pos_iff.mpr member
  rw [inFlight] at single
  omega

/-- Writing to entities for which no notification is on its way settles. -/
theorem Locked.settles_of_write {s : Locked} {event : Event} {p : Plugin}
    (settles : s.plugin.Settles event p) (write : event.IsWrite)
    (free : ∀ entity ∈ event.entities, s.plugin.count entity = 0) : s.Settles ⟨p, s.held⟩ := by
  cases settles with
  | registered | refused | passed => cases write
  | wrote _ _ _ frame =>
      refine ⟨fun _ => le_rfl, fun _ member => member, fun found => found, ?_⟩
      intro n member component
      refine frame n.entity (fun listed => ?_) component
      have there : n ∈ s.plugin.notifications := member
      have positive := Plugin.count_pos there
      have none := free n.entity listed
      omega

/-- A step of the plugin that raises nothing and is not the delivery of a notification. -/
theorem Locked.settles_of_command {s : Locked} {event : Event} {p : Plugin}
    (settles : s.plugin.Settles event p) (command : event.IsCommand)
    (free : event.IsWrite → ∀ entity ∈ event.entities, s.plugin.count entity = 0) :
    s.Settles ⟨p, s.held⟩ ∧ (event.IsWrite ∨ p.ec = s.plugin.ec) := by
  cases settles with
  | passed => cases command
  | wrote write consistent data frame =>
      exact ⟨settles_of_write (.wrote write consistent data frame) write (free write), .inl write⟩
  | registered agree more =>
      exact ⟨⟨fun _ => le_rfl, fun _ member => member, more, fun _ _ _ => rfl⟩, .inr rfl⟩
  | refused =>
      exact ⟨⟨fun _ => le_rfl, fun _ member => member, fun found => found, fun _ _ _ => rfl⟩,
        .inr rfl⟩

theorem Locked.Ok.works_of_count {blocks : Nat} {s q : Locked} (ok : s.Ok blocks) {entity : UInt32}
    (count : ∀ other, q.inFlight other + (if entity = other then 1 else 0) = s.inFlight other) :
    q.inFlight entity = 0 ∧ ∀ other, other ≠ entity → q.inFlight other = s.inFlight other := by
  refine ⟨?_, fun other differ => ?_⟩
  · have single := ok.single entity
    have here := count entity
    rw [if_pos rfl] at here
    omega
  · have there := count other
    rw [if_neg (Ne.symm differ)] at there
    exact there

/-- The function that something runs when it arrives has the entity to itself. -/
theorem Locked.Ok.works_of_arrival {blocks : Nat} {s s' : Locked} {label : Label}
    (ok : s.Ok blocks) (step : s.Step (.arrives label) s') {q : Plugin} {entity : UInt32}
    {effect : Effect} (acts : s.plugin.Acts blocks label.event q entity effect)
    (took : s'.plugin =
      (q.take (effect.outcome s.plugin.regs.ecs.systems s.plugin.ec entity)).1) :
    s.Works ⟨q, s.held⟩ entity effect s' := by
  cases step with
  | @notified n nonce output p step =>
      cases acts with
      | @notify _ _ func earlier member data hit same =>
          have held : s.heldAfter n = s.held := by
            rw [heldAfter, same, ecsSystemCalled_builtin ok.ok.agree.builtins data]
            simp
          have count : ∀ other, Locked.inFlight ⟨{ s.plugin with
              notifications := s.plugin.notifications.erase n }, s.held⟩ other +
              (if n.entity = other then 1 else 0) = s.inFlight other := by
            intro other
            have here := s.plugin.count_erase_notification member other
            simp only [inFlight]
            omega
          obtain ⟨free, others⟩ := ok.works_of_count count
          exact ⟨free, others, fun _ member => List.mem_of_mem_erase member, rfl, took, held⟩
  | @decoded request reply output p step =>
      cases acts with
      | decoded member wellFormed =>
          have count : ∀ other, Locked.inFlight ⟨{ s.plugin with
              requests := s.plugin.requests.erase request }, s.held⟩ other +
              (if request.entity = other then 1 else 0) = s.inFlight other := by
            intro other
            have here := s.plugin.count_erase_request member other
            simp only [inFlight]
            omega
          obtain ⟨free, others⟩ := ok.works_of_count count
          exact ⟨free, others, fun _ member => member, rfl, took, rfl⟩

theorem Locked.Ok.move_cases {blocks : Nat} {s s' : Locked} {move : Move} (ok : s.Ok blocks)
    (step : s.Step move s') :
    (∃ q entity effect label, move.label = some label ∧ s.Works q entity effect s' ∧
      s.plugin.Acts blocks label.event q.plugin entity effect) ∨
    (s.Settles s' ∧ (move.IsWrite ∨ s'.plugin.ec = s.plugin.ec)) := by
  cases step with
  | @client label p command free step =>
      obtain ⟨event, output⟩ := label
      rcases ok.ok.step_cases step with ⟨q, entity, effect, acts, took⟩ | ⟨-, settles⟩
      · cases acts with
        | notify | decoded => cases command
        | @advance params _ args =>
            have none : s.inFlight entity = 0 := free entity (by simp [Event.entities, args])
            exact .inl ⟨s, entity, _, ⟨.advance params, output⟩, rfl,
              ⟨none, fun _ _ => rfl, fun _ member => member, rfl, by rw [took], rfl⟩,
              .advance args⟩
      · refine .inr (settles_of_command settles command fun _ entity listed => ?_)
        have none := free entity listed
        rw [inFlight] at none
        omega
  | @writes entity label p member write free step =>
      obtain ⟨event, output⟩ := label
      rcases ok.ok.step_cases step with ⟨q, other, effect, acts, took⟩ | ⟨-, settles⟩
      · cases acts <;> cases write
      · refine .inr ⟨settles_of_write settles write fun other listed => ?_, .inl write⟩
        rcases free other listed with rfl | none
        · exact ok.free_of_held member
        · rw [inFlight] at none
          omega
  | @advances entity params output p member args step =>
      have count : ∀ other, Locked.inFlight ⟨s.plugin, s.held.erase entity⟩ other +
          (if entity = other then 1 else 0) = s.inFlight other := by
        intro other
        have here := count_erase_held member other
        simp only [inFlight]
        omega
      rcases ok.ok.step_cases step with ⟨q, other, effect, acts, took⟩ | ⟨-, settles⟩
      · cases acts with
        | advance args' =>
            obtain rfl : entity = other := Except.ok.inj (args.symm.trans args')
            obtain ⟨free, others⟩ := ok.works_of_count count
            exact .inl ⟨⟨s.plugin, s.held.erase entity⟩, entity, _, ⟨.advance params, output⟩, rfl,
              ⟨free, others, fun _ member => member, rfl, by rw [took], rfl⟩, .advance args⟩
      · cases settles with
        | wrote write => cases write
        | refused =>
            refine .inr ⟨⟨fun other => ?_, fun _ member => member, fun found => found,
              fun _ _ _ => rfl⟩, .inr rfl⟩
            exact Nat.le.intro (count other)
  | @releases entity member =>
      refine .inr ⟨⟨fun other => ?_, fun _ member => member, fun found => found,
        fun _ _ _ => rfl⟩, .inr rfl⟩
      have here := count_erase_held member other
      simp only [inFlight]
      omega
  | @notified n nonce output p step =>
      rcases ok.ok.step_cases step with ⟨q, entity, effect, acts, took⟩ | ⟨-, settles⟩
      · exact .inl ⟨⟨q, s.held⟩, entity, effect, ⟨.notify n nonce, output⟩, rfl,
          ok.works_of_arrival (.notified step) acts (by rw [took]), acts⟩
      · cases settles with
        | wrote write => cases write
        | passed member other =>
            refine .inr ⟨⟨fun entity => ?_, fun _ member => List.mem_of_mem_erase member,
              fun found => found, fun _ _ _ => rfl⟩, .inr rfl⟩
            have here := s.plugin.count_erase_notification member entity
            rcases s.heldAfter_cases n with held | held
            · simp only [inFlight, held]
              omega
            · simp only [inFlight, held, List.count_cons, beq_iff_eq]
              omega
  | @decoded request reply output p step =>
      rcases ok.ok.step_cases step with ⟨q, entity, effect, acts, took⟩ | ⟨-, settles⟩
      · exact .inl ⟨⟨q, s.held⟩, entity, effect, ⟨.decoded request reply, output⟩, rfl,
          ok.works_of_arrival (.decoded step) acts (by rw [took]), acts⟩
      · cases settles with
        | wrote write => cases write

/-! ## The lock is kept -/

theorem Locked.Ok.plugin_step {blocks : Nat} {s s' : Locked} {move : Move} (ok : s.Ok blocks)
    (step : s.Step move s') : s'.plugin.Ok blocks := by
  cases step with
  | client _ _ step | writes _ _ _ step | advances _ _ step | notified step | decoded step =>
      exact ok.ok.step step
  | releases => exact ok.ok

theorem Locked.Works.inFlight_le {s q s' : Locked} {entity : UInt32} {effect : Effect}
    (works : s.Works q entity effect s') : s'.inFlight entity ≤ 1 := by
  have bound := (effect.count_take s.plugin.regs.ecs.systems s.plugin.ec entity q.plugin).1
  have free := works.free
  rw [inFlight] at free
  rw [inFlight, works.took, works.held]
  omega

theorem Locked.Works.inFlight_other {s q s' : Locked} {entity : UInt32} {effect : Effect}
    (works : s.Works q entity effect s') {other : UInt32} (differ : other ≠ entity) :
    s'.inFlight other = s.inFlight other := by
  have same := (effect.count_take s.plugin.regs.ecs.systems s.plugin.ec entity q.plugin).2 other
    differ
  rw [← works.others other differ, inFlight, inFlight, works.took, works.held, same]

theorem Locked.Works.cell_other {s q s' : Locked} {entity : UInt32} {effect : Effect}
    (works : s.Works q entity effect s') {other : UInt32} (differ : other ≠ entity)
    (component : Text) :
    s'.plugin.ec.cell other component = s.plugin.ec.cell other component := by
  rw [works.took]
  exact effect.cell_outcome_other _ _ _ (Ne.symm differ) component

theorem Locked.Works.current {s q s' : Locked} {entity : UInt32} {effect : Effect}
    (works : s.Works q entity effect s')
    (current : ∀ n ∈ s.plugin.notifications, n.Current s.plugin.regs.ecs.systems s.plugin.ec) :
    ∀ n ∈ s'.plugin.notifications, n.Current s'.plugin.regs.ecs.systems s'.plugin.ec := by
  have regs : s'.plugin.regs = s.plugin.regs := by rw [works.took]; exact works.regs
  intro n member
  rw [regs]
  have both : n ∈ q.plugin.notifications ++
      (effect.outcome s.plugin.regs.ecs.systems s.plugin.ec entity).emitted := by
    rw [works.took] at member
    exact member
  rcases List.mem_append.mp both with old | new
  · refine (current n (works.sub n old)).congr fun component => works.cell_other ?_ component
    rintro rfl
    have positive := Plugin.count_pos old
    have free := works.free
    rw [inFlight] at free
    omega
  · rcases effect.outcome_cases s.plugin.regs.ecs.systems s.plugin.ec entity with
      ⟨none, -⟩ | ⟨n', one, -, -, fresh⟩
    · rw [none] at new
      cases new
    · rw [one, List.mem_singleton] at new
      subst new
      rw [works.took]
      exact fresh

theorem Locked.Ok.step {blocks : Nat} {s s' : Locked} {move : Move} (ok : s.Ok blocks)
    (step : s.Step move s') : s'.Ok blocks := by
  refine ⟨ok.plugin_step step, ?_, ?_⟩
  · intro entity
    rcases ok.move_cases step with ⟨q, worked, effect, label, -, works, -⟩ | ⟨settles, -⟩
    · by_cases same : entity = worked
      · exact same ▸ works.inFlight_le
      · rw [works.inFlight_other same]
        exact ok.single entity
    · exact Nat.le_trans (settles.inFlight entity) (ok.single entity)
  · rcases ok.move_cases step with ⟨q, worked, effect, label, -, works, -⟩ | ⟨settles, -⟩
    · exact works.current ok.current
    · intro n member
      exact ((ok.current n (settles.sub n member)).congr (settles.frame n member)).mono settles.more

theorem Locked.ok_of_run {blocks : Nat} {s s' : Locked} {moves : List Move} (ok : s.Ok blocks)
    (run : Run Locked.Step s moves s') : s'.Ok blocks := by
  have one : ∀ s move s', True → Locked.Ok blocks s → Locked.Step s move s' →
      Locked.Ok blocks s' := fun _ _ _ _ ok step => ok.step step
  exact run.keeps one (fun _ _ => trivial) ok

/-! ## Giving up an entity -/

theorem Effect.Sound.done_of_error {effect : Effect} (sound : effect.Sound)
    (writes : errcomp ∈ effect.writes.map Prod.fst) : effect.ending = .done := by
  obtain ⟨m, member, name⟩ := List.mem_map.mp writes
  by_contra goes
  exact (sound.keeps goes m member).2 name

/-- The function that is run on an entity when something arrives writes
    `lightningd:error`. -/
def Locked.Errs (blocks : Nat) (s : Locked) (label : Label) (s' : Locked) (entity : UInt32) :
    Prop :=
  ∃ q effect, s.plugin.Acts blocks label.event q entity effect ∧
    s'.plugin = (q.take (effect.outcome s.plugin.regs.ecs.systems s.plugin.ec entity)).1 ∧
    errcomp ∈ effect.writes.map Prod.fst

theorem Locked.Ok.errs_of_changed {blocks : Nat} {s s' : Locked} {label : Label}
    (ok : s.Ok blocks) (step : s.Step (.arrives label) s') {entity : UInt32}
    (changed : s'.plugin.ec.cell entity errcomp ≠ s.plugin.ec.cell entity errcomp) :
    s.Errs blocks label s' entity := by
  rcases ok.move_cases step with ⟨q, worked, effect, label', same, works, acts⟩ | ⟨-, write | same⟩
  · cases same
    obtain rfl : entity = worked := by
      by_contra differ
      exact changed (works.cell_other differ errcomp)
    refine ⟨q.plugin, effect, acts, works.took, ?_⟩
    by_contra unwritten
    have none : Ec.lastValue effect.writes errcomp = none :=
      Ec.lastValue_eq_none fun m member name => unwritten (List.mem_map.mpr ⟨m, member, name⟩)
    apply changed
    rw [works.took]
    refine (effect.cell_outcome _ _ _ fun both => absurd both.2 (by decide)).trans ?_
    rw [Ec.cell_setAll, if_pos rfl, none]
    rfl
  · cases write
  · exact absurd (by rw [same]) changed

/-- Nothing is in flight for the entity, and it lists no systems. -/
structure Locked.Quiet (s : Locked) (entity : UInt32) : Prop where
  inFlight : s.inFlight entity = 0
  unlisted : systemsMember s.plugin.ec entity = none

theorem Locked.Ok.stops_of_errs {blocks : Nat} {s s' : Locked} {label : Label}
    (ok : s.Ok blocks) (step : s.Step (.arrives label) s') {entity : UInt32}
    (errs : s.Errs blocks label s' entity) :
    s'.Quiet entity ∧ s'.plugin.ec.cell entity syscomp = none := by
  obtain ⟨q, effect, acts, took, writes⟩ := errs
  have works := ok.works_of_arrival step acts took
  have ends := acts.sound.done_of_error writes
  have outcome : effect.outcome s.plugin.regs.ecs.systems s.plugin.ec entity =
      ⟨s.plugin.ec.setAll entity effect.writes, [], [], none⟩ := by
    rw [Effect.outcome, ends]
  have detached : s'.plugin.ec.cell entity syscomp = none := by
    rw [took]
    exact acts.sound.detached _ _ _ ends
  refine ⟨⟨?_, ?_⟩, detached⟩
  · have free := works.free
    rw [inFlight, took, outcome, works.held]
    simpa [Plugin.take, Plugin.count, inFlight] using free
  · rw [systemsMember, Ec.current, detached]
    rfl

theorem Locked.Quiet.count_eq_zero {s : Locked} {entity : UInt32} (quiet : s.Quiet entity) :
    s.plugin.count entity = 0 := by
  have none := quiet.inFlight
  rw [Locked.inFlight] at none
  omega

theorem Locked.Quiet.advance {s s' q : Locked} {entity : UInt32} (quiet : s.Quiet entity)
    (works : s.Works q entity ⟨[], .advance⟩ s') : s'.Quiet entity := by
  have silent : (advanceSpec s.plugin.regs.ecs.systems s.plugin.ec entity).emitted = [] := by
    rcases advanceSpec_emitted s.plugin.regs.ecs.systems s.plugin.ec entity with
      none | ⟨n, -, -, -, names, named, -⟩
    · exact none
    · rw [namesSystems_iff_member] at named
      have unlisted : (s.plugin.ec.current entity syscomp).jsonGetMember "systems".toList = none :=
        quiet.unlisted
      rw [unlisted] at named
      cases named
  have outcome : Effect.outcome ⟨[], .advance⟩ s.plugin.regs.ecs.systems s.plugin.ec entity =
      ⟨(advanceSpec s.plugin.regs.ecs.systems s.plugin.ec entity).ec, [], [],
        (advanceSpec s.plugin.regs.ecs.systems s.plugin.ec entity).error⟩ := by
    rw [← silent]
    rfl
  have free := works.free
  refine ⟨?_, ?_⟩
  · rw [Locked.inFlight, works.took, outcome, works.held]
    simpa [Plugin.take, Plugin.count, Locked.inFlight] using free
  · rw [works.took, outcome]
    exact (systemsMember_advanceSpec _ _ _).trans quiet.unlisted

theorem Locked.Quiet.step {blocks : Nat} {s s' : Locked} {move : Move} {entity : UInt32}
    (quiet : s.Quiet entity) (ok : s.Ok blocks) (step : s.Step move s') :
    s'.Quiet entity ∨ (move.IsWrite ∧ (systemsMember s'.plugin.ec entity).isSome) := by
  rcases ok.move_cases step with
    ⟨⟨q, held⟩, worked, effect, ⟨event, output⟩, -, works, acts⟩ | ⟨settles, frame⟩
  · by_cases same : entity = worked
    · subst same
      have none := quiet.count_eq_zero
      cases acts with
      | advance => exact .inl (quiet.advance works)
      | notify member =>
          have positive := Plugin.count_pos member
          omega
      | decoded member =>
          have positive := Plugin.count_pos_request member
          omega
    · refine .inl ⟨(works.inFlight_other same).trans quiet.inFlight, ?_⟩
      rw [systemsMember_congr (works.cell_other same syscomp)]
      exact quiet.unlisted
  · have idle : s'.inFlight entity = 0 := Nat.le_zero.mp (quiet.inFlight ▸ settles.inFlight entity)
    cases listed : systemsMember s'.plugin.ec entity with
    | none => exact .inl ⟨idle, listed⟩
    | some value =>
        rcases frame with write | same
        · exact .inr ⟨write, rfl⟩
        · rw [same, quiet.unlisted] at listed
          cases listed

/-- From a quiet state on nothing is in flight for the entity, unless a client lists
    systems for it. -/
theorem Locked.Quiet.run {blocks : Nat} {s t : Locked} {moves : List Move} {entity : UInt32}
    (quiet : s.Quiet entity) (ok : s.Ok blocks) (run : Run Locked.Step s moves t)
    (busy : 0 < t.inFlight entity) :
    ∃ u move v rest, Within Locked.Step s moves t u move v rest ∧ move.IsWrite ∧
      systemsMember u.plugin.ec entity = none ∧ (systemsMember v.plugin.ec entity).isSome := by
  have noisy : ¬ t.Quiet entity := fun still => by
    have none := still.inFlight
    omega
  obtain ⟨u, move, v, rest, within, before, after⟩ :=
    run.crossing (P := fun state => ¬ state.Quiet entity) (not_not.mpr quiet) noisy
  obtain ⟨first, -, reached⟩ := within.split
  have here := not_not.mp before
  rcases here.step (ok_of_run ok reached) within.takes with still | ⟨write, listed⟩
  · exact absurd still after
  · exact ⟨u, move, v, rest, within, write, here.unlisted, listed⟩

theorem Notification.Current.attached {systems : SystemMap} {ec : Ec} {n : Notification}
    (current : n.Current systems ec) :
    ∀ m ∈ n.components, ec.cell n.entity m.1 = some m.2 := by
  obtain ⟨system, -, hit, same⟩ := current
  intro m member
  rw [same] at member
  obtain ⟨component, required, rfl⟩ := List.mem_map.mp member
  obtain ⟨datum, found⟩ := Option.isSome_iff_exists.mp (hit.required component required)
  simp [ecGetComponent_eq, Ec.current, found]

/-- In every reachable state at most one item is in flight for an entity.  Whatever attaches
    `lightningd:error` detaches `lightningd:systems` and leaves nothing in flight, and
    nothing will be until a client lists systems again. -/
theorem Locked.lock_of_run {blocks : Nat} {moves : List Move} {s : Locked}
    (run : Run Locked.Step (.init blocks) moves s) :
    (∀ entity, s.inFlight entity ≤ 1) ∧
    ∀ {label s' entity}, s.Step (.arrives label) s' →
      (s.Errs blocks label s' entity ∨
        s'.plugin.ec.cell entity errcomp ≠ s.plugin.ec.cell entity errcomp) →
      s'.inFlight entity = 0 ∧ s'.plugin.ec.cell entity syscomp = none ∧
      ∀ {moves' t}, Run Locked.Step s' moves' t → 0 < t.inFlight entity →
        ∃ u move v rest, Within Locked.Step s' moves' t u move v rest ∧ move.IsWrite ∧
          systemsMember u.plugin.ec entity = none ∧ (systemsMember v.plugin.ec entity).isSome := by
  have ok := Locked.ok_of_run (Locked.ok_init blocks) run
  refine ⟨ok.single, ?_⟩
  intro label s' entity step error
  have errs := error.elim id (ok.errs_of_changed step)
  obtain ⟨quiet, detached⟩ := ok.stops_of_errs step errs
  exact ⟨quiet.inFlight, detached, fun later busy => quiet.run (ok.step step) later busy⟩

/-! ## What is delivered -/

/-- A payload carries values that the entity has. -/
def Carries (ec : Ec) (entity : UInt32) (payload : Json) : Prop :=
  ∃ text members, payload.jsonGetMember "entity".toList = some (.object text
      (("entity".toList, .primitive (formatU entity.toNat)) :: members)) ∧
    ∀ m ∈ members, ∃ component, jsonEscapeUnescape m.1 = some component ∧
      ec.cell entity component = some m.2

/-- A move that does not make a system ask for an attached component whose name cannot be a
    key. -/
def Locked.SendableMove (s : Locked) (move : Move) (s' : Locked) : Prop :=
  s.Step move s' ∧ ∀ label, move.label = some label → label.event.Sendable Quotable s.plugin

theorem ComponentName.quotable {component : Text} (name : ComponentName component) :
    Quotable component := by
  intro c member
  have here := List.any_eq_false.mp name.plain c member
  simp only [Bool.or_eq_true, decide_eq_true_eq, beq_iff_eq, not_or] at here
  refine ⟨here.1.2, here.2, ?_⟩
  rintro rfl
  exact here.1.1.1 (by decide)

theorem Notification.Current.carries {systems : SystemMap} {ec : Ec} {n : Notification}
    (current : n.Current systems ec) (names : ∀ m ∈ n.components, Quotable m.1) :
    Carries ec n.entity n.payload := by
  refine ⟨_, n.components, rfl, fun m member => ⟨m.1, ?_, current.attached m member⟩⟩
  exact unescapes_self_iff.mpr (quotable_iff.mp (names m member)).2

theorem Locked.Ok.sendable_step {blocks : Nat} {s s' : Locked} {move : Move} (ok : s.Ok blocks)
    (step : s.SendableMove move s')
    (names : s.plugin.ec.Named (s.plugin.regs.ecs.systems.Sendable Quotable)) :
    s'.plugin.ec.Named (s'.plugin.regs.ecs.systems.Sendable Quotable) := by
  obtain ⟨step, sendable⟩ := step
  cases step with
  | client _ _ step | writes _ _ _ step | advances _ _ step | notified step | decoded step =>
      exact Payz.sendable_step (fun name => name.quotable) ok.ok step (sendable _ rfl) names
  | releases => exact names

theorem Locked.sendable_of_run {blocks : Nat} {moves : List Move} {s : Locked}
    (run : Run Locked.SendableMove (.init blocks) moves s) :
    Run Locked.Step (.init blocks) moves s ∧ s.Ok blocks ∧
      s.plugin.ec.Named (s.plugin.regs.ecs.systems.Sendable Quotable) := by
  have one : ∀ past t move t', (Run Locked.Step (.init blocks) past t ∧ t.Ok blocks ∧
      t.plugin.ec.Named (t.plugin.regs.ecs.systems.Sendable Quotable)) → t.SendableMove move t' →
        Run Locked.Step (.init blocks) (past ++ [move]) t' ∧ t'.Ok blocks ∧
          t'.plugin.ec.Named (t'.plugin.regs.ecs.systems.Sendable Quotable) := by
    rintro past t move t' ⟨before, ok, names⟩ step
    exact ⟨before.append (.cons step.1 .nil), ok.step step.1, ok.sendable_step step names⟩
  have start : Run Locked.Step (.init blocks) [] (.init blocks) ∧ (init blocks).Ok blocks ∧
      (init blocks).plugin.ec.Named ((init blocks).plugin.regs.ecs.systems.Sendable Quotable) := by
    refine ⟨.nil, ok_init blocks, ?_⟩
    intro entity component attached
    cases attached
  exact run.history (P := fun past t => Run Locked.Step (.init blocks) past t ∧ t.Ok blocks ∧
    t.plugin.ec.Named (t.plugin.regs.ecs.systems.Sendable Quotable)) one start

/-- As long as no system asks for an attached component whose name cannot be a key: in every
    state at most one item is in flight for an entity, and a notification that is delivered
    carries the values in the table.  Whatever attaches `lightningd:error` detaches
    `lightningd:systems` and leaves nothing in flight, and nothing will be until a client
    lists systems again. -/
theorem entity_lock {blocks : Nat} {moves : List Move} {s : Locked}
    (run : Run Locked.SendableMove (.init blocks) moves s) :
    (∀ entity, s.inFlight entity ≤ 1) ∧
    (∀ {n nonce output s'}, s.Step (.arrives ⟨.notify n nonce, output⟩) s' →
      n.Current s.plugin.regs.ecs.systems s.plugin.ec ∧
      ∃ payload, n.delivered = some payload ∧ Carries s.plugin.ec n.entity payload) ∧
    ∀ {label s' entity}, s.Step (.arrives label) s' →
      (s.Errs blocks label s' entity ∨
        s'.plugin.ec.cell entity errcomp ≠ s.plugin.ec.cell entity errcomp) →
      s'.inFlight entity = 0 ∧ s'.plugin.ec.cell entity syscomp = none ∧
      ∀ {moves' t}, Run Locked.Step s' moves' t → 0 < t.inFlight entity →
        ∃ u move v rest, Within Locked.Step s' moves' t u move v rest ∧ move.IsWrite ∧
          systemsMember u.plugin.ec entity = none ∧ (systemsMember v.plugin.ec entity).isSome := by
  obtain ⟨run', ok, named⟩ := Locked.sendable_of_run run
  obtain ⟨single, stops⟩ := Locked.lock_of_run run'
  refine ⟨single, ?_, stops⟩
  intro n nonce output s' step
  have member : n ∈ s.plugin.notifications := by
    cases step with
    | notified step => exact step.1
  have current := ok.current n member
  have names := current.names named
  refine ⟨current, n.payload, ?_, current.carries names⟩
  exact n.delivered_eq (fun m member => (quotable_iff.mp (names m member)).1)
    (current.values ok.ok.data)

def twoAmounts : List (Text × Json) :=
  [("lightningd:amount".toList, .primitive "1".toList),
    ("lightningd:invoice:amount_msat".toList, .primitive "1".toList)]

theorem awaitsTwoAmounts_start :
    ∃ p, (Plugin.init (.primitive (formatU 2016))).Step
        ⟨.setcomponents (systemParams .failInvoiceAmountAndAmount twoAmounts), ⟨[], none⟩⟩ p ∧
      Awaits .failInvoiceAmountAndAmount p ∧ p.notifications = [] ∧ p.requests = [] := by
  have keys : ∀ m ∈ twoAmounts, StringText m.1 := by
    have amount : StringText "lightningd:amount".toList := .of_plain rfl
    have other : StringText "lightningd:invoice:amount_msat".toList := .of_plain rfl
    exact List.forall_mem_cons.mpr ⟨amount, List.forall_mem_singleton.mpr other⟩
  have values : ∀ m ∈ twoAmounts, m.2.WellFormed :=
    List.forall_mem_cons.mpr ⟨.formatU 1, List.forall_mem_singleton.mpr (.formatU 1)⟩
  have ran : payecsSetcomponents ecNew (systemParams .failInvoiceAmountAndAmount twoAmounts) =
      .ok (ecNew.setAll 1 (twoAmounts ++ [(syscomp, oneSystem .failInvoiceAmountAndAmount)]),
        .success []) := rfl
  exact Awaits.start keys values ran rfl ⟨by decide, by decide +kernel, by decide +kernel⟩

/-- Two amounts are an error: the delivery gives the entity up. -/
theorem entity_lock_two_amounts :
    ∃ moves s n nonce output s' payload, Run Locked.SendableMove (.init 2016) moves s ∧
      s.inFlight 1 = 1 ∧ s.Step (.arrives ⟨.notify n nonce, output⟩) s' ∧
      n.delivered = some payload ∧ Carries s.plugin.ec 1 payload ∧
      s.Errs 2016 ⟨.notify n nonce, output⟩ s' 1 ∧ (∀ entity, s.inFlight entity ≤ 1) ∧
      s'.inFlight 1 = 0 ∧ s'.plugin.ec.cell 1 syscomp = none := by
  obtain ⟨p₁, step₁, awaits₁, noNotification, noRequest⟩ := awaitsTwoAmounts_start
  obtain ⟨n, p₂, step₂, awaits₂, notifications, requests, same⟩ := awaits₁.advance
  rw [noNotification, List.nil_append] at notifications
  rw [noRequest] at requests
  have none : ∀ entity, Locked.inFlight ⟨p₁, []⟩ entity = 0 := by
    simp [Locked.inFlight, Plugin.count, noNotification, noRequest]
  have first : Locked.Step (.init 2016) (.client _) ⟨p₁, []⟩ :=
    .client (by trivial) (fun _ _ => rfl) step₁
  have second : Locked.Step ⟨p₁, []⟩ (.client _) ⟨p₂, []⟩ :=
    .client (by trivial) (fun entity _ => none entity) step₂
  have sendable : ∀ params, (Event.advance params).Sendable Quotable p₁ := fun _ => trivial
  have run : Run Locked.SendableMove (.init 2016) _ ⟨p₂, []⟩ :=
    .cons ⟨first, fun label same => by cases same; trivial⟩
      (.cons ⟨second, fun label same => by cases same; exact sendable _⟩ .nil)
  have one : Locked.inFlight ⟨p₂, []⟩ 1 = 1 := by
    simp [Locked.inFlight, Plugin.count, notifications, requests, same, runSystem]
  have member : n ∈ p₂.notifications := by simp [notifications]
  obtain ⟨output, q, p₃, step₃, acts, took⟩ :=
    awaits₂.ok.delivers member awaits₂.ok.data awaits₂.hit same (Vector.replicate 32 0)
  have delivered : Locked.Step ⟨p₂, []⟩ (.arrives ⟨.notify n (Vector.replicate 32 0), output⟩)
      ⟨p₃, Locked.heldAfter ⟨p₂, []⟩ n⟩ := .notified step₃
  have errs : Locked.Errs 2016 ⟨p₂, []⟩ ⟨.notify n (Vector.replicate 32 0), output⟩
      ⟨p₃, Locked.heldAfter ⟨p₂, []⟩ n⟩ 1 := ⟨q, _, acts, took, List.mem_cons_self⟩
  obtain ⟨single, delivers, stops⟩ := entity_lock run
  obtain ⟨-, payload, parsed, carries⟩ := delivers delivered
  obtain ⟨idle, detached, -⟩ := stops delivered (.inl errs)
  rw [same] at carries
  exact ⟨_, _, n, _, _, _, payload, run, one, delivered, parsed, carries, errs, single, idle,
    detached⟩

/-- `x` asks for a component whose name holds quotes, which a promoted type attaches.  What
    is delivered for it has a value that the entity has not. -/
theorem entity_lock_promoted_component :
    ∃ moves s n nonce output s' payload, Run Locked.Step (.init 2016) moves s ∧
      s.Step (.arrives ⟨.notify n nonce, output⟩) s' ∧ n.delivered = some payload ∧
      ¬ Carries s.plugin.ec n.entity payload := by
  let nonce : Nonce := Vector.replicate 32 0
  let advance : Event := .advance (entityParams 1)
  let m := callsX splitName trueDatum
  have check : ((Plugin.init (.primitive (formatU 2016))).step splitRegister).bind (fun s₁ =>
      (s₁.1.step splitWrite).bind fun s₂ => (s₂.1.step advance).bind fun s₃ =>
        (s₃.1.step (.notify promotesSplit nonce)).bind fun s₄ =>
          (s₄.1.step (.notify m nonce)).map fun _ =>
            ([s₁.1.notifications, s₂.1.notifications, s₃.1.notifications, s₄.1.notifications],
              (s₁.1.requests.length, s₂.1.requests.length),
              s₄.1.ec.cell 1 "lightningd:invoice:type:[".toList)) =
      .ok ([[], [], [promotesSplit], [m]], (0, 0), none) := by decide +kernel
  obtain ⟨⟨p₁, out₁⟩, registers, check⟩ := eq_of_bind_eq_ok check
  obtain ⟨⟨p₂, out₂⟩, writes, check⟩ := eq_of_bind_eq_ok check
  obtain ⟨⟨p₃, out₃⟩, advances, check⟩ := eq_of_bind_eq_ok check
  obtain ⟨⟨p₄, out₄⟩, delivers, check⟩ := eq_of_bind_eq_ok check
  obtain ⟨⟨p₅, out₅⟩, delivers', check⟩ := eq_of_map_eq_ok check
  simp only [Prod.mk.injEq, List.cons.injEq, and_true, List.length_eq_zero_iff] at check
  obtain ⟨⟨none₁, none₂, raised, raised'⟩, ⟨idle₁, idle₂⟩, absent⟩ := check
  have comp : StringText promotedComp := .of_plain rfl
  have free : ∀ {p : Plugin}, p.notifications = [] → p.requests = [] →
      ∀ entity, Locked.inFlight ⟨p, []⟩ entity = 0 := by
    intro p notifications requests entity
    simp [Locked.inFlight, Plugin.count, notifications, requests]
  have first : Locked.Step (.init 2016) (.client ⟨splitRegister, out₁⟩) ⟨p₁, []⟩ :=
    .client trivial (fun _ _ => rfl)
      ⟨requiringParams_wellFormed (stringText_jsonEscape splitName), registers⟩
  have second : Locked.Step ⟨p₁, []⟩ (.client ⟨splitWrite, out₂⟩) ⟨p₂, []⟩ :=
    .client trivial (fun entity _ => free none₁ idle₁ entity)
      ⟨leftTo_wellFormed comp splittingType_wellFormed _, writes⟩
  have third : Locked.Step ⟨p₂, []⟩ (.client ⟨advance, out₃⟩) ⟨p₃, []⟩ :=
    .client trivial (fun entity _ => free none₂ idle₂ entity) ⟨entityParams_wellFormed 1, advances⟩
  have there : promotesSplit ∈ p₃.notifications := raised ▸ List.mem_singleton.mpr rfl
  have there' : m ∈ p₄.notifications := raised' ▸ List.mem_singleton.mpr rfl
  have fourth : Locked.Step ⟨p₃, []⟩ (.arrives ⟨.notify promotesSplit nonce, out₄⟩) ⟨p₄, _⟩ :=
    .notified ⟨there, delivers⟩
  refine ⟨_, _, m, nonce, out₅, _, splitPayload, .cons first (.cons second (.cons third
    (.cons fourth .nil))), .notified ⟨there', delivers'⟩, callsX_split, ?_⟩
  rintro ⟨text, members, found, each⟩
  have whole : splitPayload.jsonGetMember "entity".toList = some splitObject := rfl
  rw [whole, Option.some.injEq] at found
  simp only [splitObject, Json.tight, Json.object.injEq, List.cons.injEq] at found
  obtain ⟨-, -, rfl⟩ := found
  obtain ⟨component, read, attached⟩ := each _ List.mem_cons_self
  have same : component = "lightningd:invoice:type:[".toList := (Option.some.inj read).symm
  subst same
  exact absurd (absent.symm.trans attached) (by simp)

end Payz
