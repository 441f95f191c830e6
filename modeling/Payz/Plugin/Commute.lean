import Payz.Plugin.Interleavings
import Payz.Plugin.Locality

/-! # Steps on different entities

Two steps that name different entities can be taken in either order: the table, the answers
and what is raised are the same.
-/

namespace Payz

open Locality Runs

/-- A list without the item that has arrived, if any. -/
def dropItem {α : Type} [DecidableEq α] (item : Option α) (items : List α) : List α :=
  item.elim items items.erase

/-- The notification that brings an event about. -/
def Event.notification : Event → Option Notification
  | .notify n _ => some n
  | _ => none

/-- The request that an event answers. -/
def Event.request : Event → Option DecodeRequest
  | .decoded request _ => some request
  | _ => none

/-- The events that work on entities: all but the registration of a system. -/
def Event.OnEntities : Event → Prop
  | .newsystem _ => False
  | _ => True

/-- What comes of an event, besides the table. -/
def Plugin.answer (p : Plugin) (event : Event) : Except Fault Answer :=
  (event.act p.regs p.defaultMaxdelay p.ec).map Prod.snd

/-- The plugin after an event that came to this. -/
def Plugin.after (p : Plugin) (event : Event) (done : Ec × Answer) : Plugin :=
  { p with
    ec := done.1
    notifications := dropItem event.notification p.notifications ++ done.2.emitted
    requests := dropItem event.request p.requests ++ done.2.requests }

theorem Plugin.step_eq_act (p : Plugin) {event : Event} (on : event.OnEntities) :
    p.step event = (event.act p.regs p.defaultMaxdelay p.ec).map fun done =>
      (p.after event done, ⟨done.2.emitted, done.2.logged⟩) := by
  cases event with
  | setcomponents params =>
      rw [step, Event.act]
      cases payecsSetcomponents p.ec params <;>
        simp [Except.map, after, dropItem, Event.notification, Event.request]
  | setdefaultsystems params =>
      rw [step, Event.act]
      cases payecsSetdefaultsystems p.regs.ecs.systems p.ec params <;>
        simp [Except.map, after, dropItem, Event.notification, Event.request]
  | newsystem params => cases on
  | advance params =>
      rw [step, Event.act]
      cases payecsAdvance p.regs.ecs.systems p.ec params <;> rfl
  | notify n nonce =>
      rw [step, Event.act]
      cases ecsSystemDeliver p.regs.ecs p.defaultMaxdelay nonce p.ec n <;> rfl
  | decoded request reply =>
      rw [step, Event.act]
      cases decodeReplied p.regs.ecs.systems p.ec request reply <;> rfl

theorem Event.act_local {blocks : Nat} {p : Plugin} (ok : p.Ok blocks) {event : Event}
    (admissible : event.Admissible p) (on : event.OnEntities) (next : UInt32) :
    Local Ec.cell (Ec.InOrder next) {e | e ∈ event.named} (event.act p.regs p.defaultMaxdelay) := by
  cases event with
  | setcomponents params => exact setcomponents_local admissible
  | setdefaultsystems params => exact setdefaultsystems_local
  | newsystem params => cases on
  | advance params => exact advance_local
  | notify n nonce =>
      rw [ok.maxdelay]
      exact notify_local ok.agree (ok.raised n admissible) nonce
  | decoded request reply => exact decoded_local request admissible.2

/-! ## What is on its way -/

theorem mem_dropItem {α : Type} [DecidableEq α] {item : Option α} {items : List α} {x : α}
    (member : x ∈ items) (other : some x ≠ item) : x ∈ dropItem item items := by
  cases item with
  | none => exact member
  | some y =>
      have differ : x ≠ y := fun same => other (by rw [same])
      exact (List.mem_erase_of_ne differ).mpr member

/-- The order in which two items arrive does not matter to the rest. -/
theorem dropItem_perm {α : Type} [DecidableEq α] {item item' : Option α} {items new new' : List α}
    (first : ∀ x, item = some x → x ∈ dropItem item' items)
    (second : ∀ x, item' = some x → x ∈ dropItem item items) :
    (dropItem item' (dropItem item items ++ new) ++ new').Perm
      (dropItem item (dropItem item' items ++ new') ++ new) := by
  have passes : ∀ {item : Option α} {items new : List α}, (∀ x, item = some x → x ∈ items) →
      dropItem item (items ++ new) = dropItem item items ++ new := by
    intro item items new there
    cases item with
    | none => rfl
    | some x => exact List.erase_append_left _ (there x rfl)
  have comm : dropItem item' (dropItem item items) = dropItem item (dropItem item' items) := by
    cases item with
    | none => rfl
    | some x =>
        cases item' with
        | none => rfl
        | some y => exact List.erase_comm x y
  rw [passes second, passes first, comm, List.append_assoc, List.append_assoc]
  exact List.Perm.append_left _ List.perm_append_comm

theorem Event.mem_named_notification {event : Event} {n : Notification}
    (brings : event.notification = some n) : n.entity ∈ event.named := by
  cases event with
  | notify n' nonce =>
      cases brings
      exact List.mem_singleton.mpr rfl
  | setcomponents | setdefaultsystems | newsystem | advance | decoded => cases brings

theorem Event.mem_named_request {event : Event} {request : DecodeRequest}
    (answers : event.request = some request) : request.entity ∈ event.named := by
  cases event with
  | decoded request' reply =>
      cases answers
      exact List.mem_singleton.mpr rfl
  | setcomponents | setdefaultsystems | newsystem | advance | notify => cases answers

theorem Event.Admissible.items {p : Plugin} {event : Event} (admissible : event.Admissible p) :
    (∀ n, event.notification = some n → n ∈ p.notifications) ∧
      ∀ request, event.request = some request → request ∈ p.requests := by
  cases event with
  | setcomponents | setdefaultsystems | newsystem | advance =>
      constructor
      · intro n brings
        cases brings
      · intro request answers
        cases answers
  | notify n nonce =>
      constructor
      · intro n' brings
        cases brings
        exact admissible
      · intro request answers
        cases answers
  | decoded request reply =>
      constructor
      · intro n brings
        cases brings
      · intro request' answers
        cases answers
        exact admissible.1

theorem Event.Admissible.of_items {p q : Plugin} {event : Event} (admissible : event.Admissible p)
    (notifications : ∀ n, event.notification = some n → n ∈ q.notifications)
    (requests : ∀ request, event.request = some request → request ∈ q.requests) :
    event.Admissible q := by
  cases event with
  | setcomponents | setdefaultsystems | newsystem | advance => exact admissible
  | notify n nonce => exact notifications n rfl
  | decoded request reply => exact ⟨requests request rfl, admissible.2⟩

/-! ## Swapping two steps -/

/-- If one event and then another go through, so they do in the other order, with the same
    table and the same answers, and the same is on its way. -/
def Plugin.Swaps (p : Plugin) (first second : Event) : Prop :=
  ∀ {p₁ p₂ : Plugin} {out out' : Output}, p.Step ⟨first, out⟩ p₁ → p₁.Step ⟨second, out'⟩ p₂ →
    ∃ q₁ q₂, p.Step ⟨second, out'⟩ q₁ ∧ q₁.Step ⟨first, out⟩ q₂ ∧ q₂.ec = p₂.ec ∧
      q₂.regs = p₂.regs ∧ p₂.notifications.Perm q₂.notifications ∧
      p₂.requests.Perm q₂.requests ∧ q₁.answer first = p.answer first ∧
      p.answer second = p₁.answer second

section

variable {blocks : Nat} {p : Plugin} {first second : Event}

/-- What an event needs is still there after one on other entities. -/
theorem Event.Admissible.after (admissible : first.Admissible p)
    (disjoint : ∀ entity ∈ first.named, entity ∉ second.named) (done : Ec × Answer) :
    (∀ n, first.notification = some n → n ∈ dropItem second.notification p.notifications) ∧
      (∀ request, first.request = some request → request ∈ dropItem second.request p.requests) ∧
      first.Admissible (p.after second done) := by
  have notifications : ∀ n, first.notification = some n →
      n ∈ dropItem second.notification p.notifications := by
    intro n brings
    refine mem_dropItem (admissible.items.1 n brings) fun same => ?_
    exact disjoint _ (Event.mem_named_notification brings)
      (Event.mem_named_notification same.symm)
  have requests : ∀ request, first.request = some request →
      request ∈ dropItem second.request p.requests := by
    intro request answers
    refine mem_dropItem (admissible.items.2 request answers) fun same => ?_
    exact disjoint _ (Event.mem_named_request answers)
      (Event.mem_named_request same.symm)
  exact ⟨notifications, requests, admissible.of_items
    (fun n brings => List.mem_append_left _ (notifications n brings))
    fun request answers => List.mem_append_left _ (requests request answers)⟩

theorem Plugin.Ok.swaps (ok : p.Ok blocks) (admissible : first.Admissible p)
    (admissible' : second.Admissible p) (on : first.OnEntities) (on' : second.OnEntities)
    (disjoint : ∀ entity ∈ first.named, entity ∉ second.named) :
    p.Swaps first second := by
  intro p₁ p₂ out out' step step'
  have one := step.2
  rw [step_eq_act p on] at one
  obtain ⟨⟨ec₁, answer⟩, acted, same⟩ := eq_of_map_eq_ok one
  cases same
  have two := step'.2
  rw [step_eq_act _ on'] at two
  obtain ⟨⟨ec₂, answer'⟩, acted', same⟩ := eq_of_map_eq_ok two
  cases same
  have order : p.ec.InOrder p.ec.nextEntity := ⟨ok.consistent, ok.data, rfl⟩
  obtain ⟨ec₃, swapped', swapped⟩ := (Event.act_local ok admissible on p.ec.nextEntity).swap
    (Event.act_local ok admissible' on' p.ec.nextEntity) Ec.InOrder.ext disjoint order acted acted'
  obtain ⟨notifications, requests, still⟩ := admissible.after disjoint (ec₃, answer')
  obtain ⟨notifications', requests', -⟩ := admissible'.after
    (fun entity mine' mine => disjoint entity mine mine') (ec₁, answer)
  refine ⟨p.after second (ec₃, answer'), (p.after second (ec₃, answer')).after first (ec₂, answer),
    ⟨admissible', ?_⟩, ⟨still, ?_⟩, rfl, rfl, ?_, ?_, ?_, ?_⟩
  · rw [step_eq_act p on', swapped']
    rfl
  · rw [step_eq_act _ on]
    exact congrArg (Except.map _) swapped
  · exact dropItem_perm notifications notifications'
  · exact dropItem_perm requests requests'
  · rw [Plugin.answer, Plugin.answer, acted]
    exact (congrArg (Except.map Prod.snd) swapped).trans rfl
  · rw [Plugin.answer, Plugin.answer, swapped', acted']
    rfl

end

/-- In every reachable state two events on different entities can be swapped. -/
theorem disjoint_steps_commute {blocks : Nat} {labels : List Label} {p : Plugin}
    (run : Run Plugin.Step (.init (.primitive (formatU blocks))) labels p) {first second : Event}
    (admissible : first.Admissible p) (admissible' : second.Admissible p)
    (on : first.OnEntities) (on' : second.OnEntities)
    (disjoint : ∀ entity ∈ first.named, entity ∉ second.named) :
    p.Swaps first second ∧ p.Swaps second first := by
  have ok := Plugin.ok_of_run (Plugin.ok_init blocks) run
  exact ⟨ok.swaps admissible admissible' on on' disjoint, ok.swaps admissible' admissible on' on
    fun entity mine' mine => disjoint entity mine mine'⟩

/-- An entity is given a system and another one is advanced, in either order. -/
theorem disjoint_steps_commute_two_entities :
    ∃ p₁ p₂ q₁ q₂ out,
      (Plugin.init (.primitive (formatU 2016))).Step
        ⟨.setcomponents (systemParams .generateNonce []), ⟨[], none⟩⟩ p₁ ∧
      p₁.Step ⟨.advance (entityParams 2), out⟩ p₂ ∧
      (Plugin.init (.primitive (formatU 2016))).Step ⟨.advance (entityParams 2), out⟩ q₁ ∧
      q₁.Step ⟨.setcomponents (systemParams .generateNonce []), ⟨[], none⟩⟩ q₂ ∧
      q₂.ec = p₂.ec := by
  obtain ⟨p₁, step₁, awaits, -, -⟩ := awaitsNonce_start
  obtain ⟨reply, advanced⟩ := payecsAdvance_eq p₁.regs.ecs.systems awaits.ok.data
    (payecsAdvanceArgs_entityParams 2)
  have step₂ : p₁.Step ⟨.advance (entityParams 2), _⟩ _ :=
    ⟨entityParams_wellFormed 2, by rw [Plugin.step, advanced]; rfl⟩
  have named : (Event.setcomponents (systemParams .generateNonce [])).named = [1] := rfl
  have named' : (Event.advance (entityParams 2)).named = [2] := by
    simp only [Event.named, Event.entities, payecsAdvanceArgs_entityParams]
  have apart : ∀ entity ∈ (Event.setcomponents (systemParams .generateNonce [])).named,
      entity ∉ (Event.advance (entityParams 2)).named := by
    intro entity first second
    rw [named, List.mem_singleton] at first
    rw [named', List.mem_singleton] at second
    exact absurd (first.symm.trans second) (by decide +kernel)
  have possible : (Event.advance (entityParams 2)).Admissible
      (.init (.primitive (formatU 2016))) := entityParams_wellFormed 2
  obtain ⟨swaps, -⟩ := disjoint_steps_commute .nil step₁.1 possible trivial trivial apart
  obtain ⟨q₁, q₂, step₁', step₂', same, -⟩ := swaps step₁ step₂
  exact ⟨p₁, _, q₁, q₂, _, step₁, step₂, step₁', step₂', same⟩

end Payz
