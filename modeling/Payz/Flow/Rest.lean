import Mathlib.Data.Finset.Card
import Payz.Flow.Turns

/-! # Does the default flow come to rest?

Each system is to disable its own trigger.  All but one do, by a component they attach
and nothing detaches.  `promote_invoice_type` never attaches the
`lightningd:promote_invoice_type:ran` that would keep it from running again: once it
runs, it runs forever.  So the flow comes to rest exactly if it does not get to run.
-/

namespace Payz

def invoiceComp : Text := "lightningd:invoice".toList

def parseRanComp : Text := "lightningd:parse_invoice:ran".toList

def typeComp : Text := "lightningd:invoice:type".toList

def promoteRanComp : Text := "lightningd:promote_invoice_type:ran".toList

/-- The type of the invoice after `decode` has answered; an error ends the flow. -/
def typeAfterReply (before : Option Json) : DecodeReply → Option Json
  | .result _ members =>
      (Ec.lastValue members "type".toList).elim before fun value => attached (some value)
  | .error _ => none

/-- The type of the invoice that `promote_invoice_type` gets to see: `parse_invoice` comes
    before it. -/
def typeSeen (answers : Answers) (ec : Ec) (entity : UInt32) : Option Json :=
  if (ec.cell entity invoiceComp).isSome ∧ ec.cell entity parseRanComp = none then
    typeAfterReply (ec.cell entity typeComp) (answers.decode (ec.current entity invoiceComp))
  else ec.cell entity typeComp

/-- `promote_invoice_type` does not get to run. -/
def Stops (answers : Answers) (ec : Ec) (entity : UInt32) : Prop :=
  (ec.cell entity promoteRanComp).isSome ∨ typeSeen answers ec entity = none

structure Flow.AtRest (entity : UInt32) (flow : Flow) : Prop where
  notifications : flow.plugin.notifications = []
  requests : flow.plugin.requests = []
  outcome : flow.report = some 2201 ∨ flow.plugin.ec.cell entity syscomp = none

/-- A plugin with nothing on its way and an entity with the default systems. -/
structure Ready (blocks : Nat) (entity : UInt32) (p : Plugin) : Prop where
  ok : p.Ok blocks
  notifications : p.notifications = []
  requests : p.requests = []
  named : NamesSystems p.ec entity defaultSystems

/-! ## What decides is kept -/

/-- The same question in the midst of a flow. -/
def StopsAt (answers : Answers) (entity : UInt32) (ec : Ec) : Phase → Prop
  | .notified _ | .exhausted => Stops answers ec entity
  | .decoding string => (ec.cell entity promoteRanComp).isSome ∨
      typeAfterReply (ec.cell entity typeComp) (answers.decode string) = none
  | .stopped => True

/-- The components the question is about. -/
def watched : List Text := [invoiceComp, parseRanComp, typeComp, promoteRanComp]

theorem watched_apart : ∀ component ∈ watched, syscomp ≠ component := by decide +kernel

theorem Stops.congr {answers : Answers} {ec ec' : Ec} {entity : UInt32}
    (same : ∀ component ∈ watched, ec'.cell entity component = ec.cell entity component) :
    Stops answers ec' entity ↔ Stops answers ec entity := by
  have invoice := same invoiceComp (by simp [watched])
  have ran := same parseRanComp (by simp [watched])
  have type := same typeComp (by simp [watched])
  have promoted := same promoteRanComp (by simp [watched])
  simp only [Stops, typeSeen, Ec.current, invoice, ran, type, promoted]

/-- The systems other than `parse_invoice` and the one that gives up write none of them. -/
theorem EcsSystemFunction.effect_unwatched {func : EcsSystemFunction}
    (parse : func ≠ .parseInvoice) (fail : func ≠ .failInvoiceAmountAndAmount) (nonce : Nonce)
    (blocks : Nat) (values : Text → Json) :
    ∀ m ∈ (func.effect nonce blocks values).writes, m.1 ∉ watched := by
  have apart : ∀ func ∈ builtins, func ≠ .parseInvoice → func ≠ .failInvoiceAmountAndAmount →
      ∀ component ∈ watched, component ∉ func.outputs ∧
        ¬ "lightningd:invoice:type:".toList <+: component := by decide +kernel
  exact effect_apart (apart func (mem_builtins func) parse fail) nonce blocks values

theorem EcsSystemFunction.effect_ending {func : EcsSystemFunction}
    (parse : func ≠ .parseInvoice) (fail : func ≠ .failInvoiceAmountAndAmount) (nonce : Nonce)
    (blocks : Nat) (values : Text → Json) :
    (func.effect nonce blocks values).ending = .advance := by
  cases func with
  | parseInvoice => exact absurd rfl parse
  | failInvoiceAmountAndAmount => exact absurd rfl fail
  | _ => rfl

theorem stopsAt_advanced {answers : Answers} {entity : UInt32} {ec : Ec} {effect : Effect}
    (ends : effect.ending = .advance) :
    StopsAt answers entity ec (effect.next ec entity) ↔ Stops answers ec entity := by
  unfold Effect.next
  rw [ends]
  cases first : firstMatch ec entity <;> exact Iff.rfl

theorem Effect.next_ne_decoding {effect : Effect} (ends : effect.ending = .advance) (ec : Ec)
    (entity : UInt32) (string : Json) : effect.next ec entity ≠ .decoding string := by
  unfold next
  rw [ends]
  cases firstMatch ec entity <;> simp

theorem Flow.Turned.cell_eq {blocks : Nat} {entity : UInt32} {effect : Effect} {flow after : Flow}
    (turned : flow.Turned blocks entity effect after) {component : Text}
    (unwritten : ∀ m ∈ effect.writes, m.1 ≠ component) (other : syscomp ≠ component) :
    after.plugin.ec.cell entity component = flow.plugin.ec.cell entity component := by
  rw [turned.cells component other, Ec.cell_setAll, if_pos rfl, Ec.lastValue_eq_none unwritten,
    Option.elim_none]

theorem matches_parseInvoice {ec : Ec} {entity : UInt32} :
    Matches ec entity EcsSystemFunction.parseInvoice.registered ↔
      (ec.cell entity invoiceComp).isSome ∧ ec.cell entity parseRanComp = none :=
  matches_single rfl rfl

theorem matches_promoteInvoiceType {ec : Ec} {entity : UInt32} :
    Matches ec entity EcsSystemFunction.promoteInvoiceType.registered ↔
      (ec.cell entity typeComp).isSome ∧ ec.cell entity promoteRanComp = none :=
  matches_single rfl rfl

/-- With neither `parse_invoice` nor `promote_invoice_type` matching, the latter will not
    run. -/
theorem stops_of_unmatched {answers : Answers} {ec : Ec} {entity : UInt32}
    (parse : ¬ Matches ec entity EcsSystemFunction.parseInvoice.registered)
    (promote : ¬ Matches ec entity EcsSystemFunction.promoteInvoiceType.registered) :
    Stops answers ec entity := by
  rw [matches_parseInvoice] at parse
  rw [matches_promoteInvoiceType] at promote
  rw [Stops, typeSeen, if_neg parse]
  cases ran : ec.cell entity promoteRanComp with
  | some datum => exact .inl rfl
  | none =>
      refine .inr (Option.not_isSome_iff_eq_none.mp fun there => ?_)
      exact promote ⟨there, ran⟩

/-- `promote_invoice_type` would be found before any system that comes after it. -/
theorem stops_of_firstMatch {answers : Answers} {ec : Ec} {entity : UInt32}
    {first : Option EcsSystemFunction} (found : firstMatch ec entity = first)
    (later : ∀ func ∈ [EcsSystemFunction.generateNonce, .parseInvoice, .promoteInvoiceType],
      first ≠ some func) : Stops answers ec entity := by
  refine stops_of_unmatched (fun hit => ?_) fun hit => ?_
  · have order : builtins = [.generateNonce] ++ .parseInvoice :: builtins.drop 2 := rfl
    obtain ⟨func, member, same⟩ := firstMatch_mem order hit
    exact later func (List.mem_append_left [EcsSystemFunction.promoteInvoiceType] member)
      (found.symm.trans same)
  · have order : builtins = [.generateNonce, .parseInvoice] ++ .promoteInvoiceType ::
        builtins.drop 3 := rfl
    obtain ⟨func, member, same⟩ := firstMatch_mem order hit
    exact later func member (found.symm.trans same)

theorem not_stops_of_promote {answers : Answers} {ec : Ec} {entity : UInt32}
    (first : firstMatch ec entity = some .promoteInvoiceType) : ¬ Stops answers ec entity := by
  have hit := firstMatch_some first
  rw [matches_promoteInvoiceType] at hit
  have parse : ¬ Matches ec entity EcsSystemFunction.parseInvoice.registered := by
    intro earlier
    have order : builtins = [.generateNonce] ++ .parseInvoice :: builtins.drop 2 := rfl
    obtain ⟨func, member, same⟩ := firstMatch_mem order earlier
    rw [first, Option.some.injEq] at same
    subst same
    exact absurd member (by decide)
  rw [matches_parseInvoice] at parse
  rintro (ran | unseen)
  · rw [hit.2] at ran
    cases ran
  · rw [typeSeen, if_neg parse] at unseen
    rw [unseen] at hit
    cases hit.1

/-- Whether the flow will stop, and that a request goes out once the marker of
    `parse_invoice` is set. -/
structure Heading (answers : Answers) (entity : UInt32) (stops : Prop) (flow : Flow)
    (phase : Phase) : Prop where
  decided : StopsAt answers entity flow.plugin.ec phase ↔ stops
  marked : ∀ {string}, phase = .decoding string →
    (flow.plugin.ec.cell entity parseRanComp).isSome

namespace Heading

variable {answers : Answers} {blocks : Nat} {entity : UInt32} {stops : Prop} {flow after : Flow}

theorem parse (stands : flow.At blocks entity (.notified .parseInvoice))
    (heading : Heading answers entity stops flow (.notified .parseInvoice))
    (turned : flow.Turned blocks entity (EcsSystemFunction.effect answers.nonce blocks
      (flow.plugin.ec.current entity) .parseInvoice) after) :
    Heading answers entity stops after (.decoding (flow.plugin.ec.current entity invoiceComp)) := by
  have hit := firstMatch_some stands.fits.2
  rw [matches_parseInvoice] at hit
  have kept : ∀ component, parseRanComp ≠ component → syscomp ≠ component →
      after.plugin.ec.cell entity component = flow.plugin.ec.cell entity component :=
    fun component differ other => turned.cell_eq (List.forall_mem_singleton.mpr differ) other
  refine ⟨?_, fun _ => ?_⟩
  · rw [← heading.decided, StopsAt, StopsAt, Stops, typeSeen, if_pos hit,
      kept typeComp (by decide) (by decide), kept promoteRanComp (by decide) (by decide)]
  · rw [turned.cells parseRanComp (by decide), Ec.cell_setAll, if_pos rfl]
    rfl

theorem answered {string : Json} (heading : Heading answers entity stops flow (.decoding string))
    (turned : flow.Turned blocks entity (answers.decode string).effect after) :
    Heading answers entity stops after
      ((answers.decode string).effect.next after.plugin.ec entity) := by
  have decided := heading.decided
  rw [StopsAt] at decided
  cases reply : answers.decode string with
  | error res =>
      rw [reply] at decided
      exact ⟨by simpa [DecodeReply.effect, Effect.next, StopsAt, typeAfterReply] using decided,
        fun same => by cases same⟩
  | result text members =>
      rw [reply] at decided turned
      have kept : ∀ component, ¬ invoicePrefix <+: component → syscomp ≠ component →
          after.plugin.ec.cell entity component = flow.plugin.ec.cell entity component := by
        intro component apart other
        refine turned.cell_eq ?_ other
        intro m member
        obtain ⟨m', -, rfl⟩ := List.mem_map.mp member
        exact ne_of_invoicePrefix ⟨m'.1, rfl⟩ apart
      have type : after.plugin.ec.cell entity typeComp =
          typeAfterReply (flow.plugin.ec.cell entity typeComp) (.result text members) := by
        rw [turned.cells typeComp (by decide), Ec.cell_setAll, if_pos rfl]
        exact congrArg (fun value => Option.elim value _ _) (lastValue_invoicePrefix members _)
      have ran : ¬ ((after.plugin.ec.cell entity invoiceComp).isSome ∧
          after.plugin.ec.cell entity parseRanComp = none) := by
        rw [kept parseRanComp (by decide) (by decide)]
        intro both
        have marked := heading.marked rfl
        rw [both.2] at marked
        cases marked
      have ends : (DecodeReply.result text members).effect.ending = .advance := rfl
      refine ⟨?_, fun same => absurd same (Effect.next_ne_decoding ends _ _ _)⟩
      rw [stopsAt_advanced ends, ← decided, Stops, typeSeen, if_neg ran, type,
        kept promoteRanComp (by decide) (by decide)]

theorem keeps {phase phase' : Phase} (stands : flow.At blocks entity phase)
    (heading : Heading answers entity stops flow phase)
    (went : Flow.Went answers blocks entity flow phase after phase') :
    Heading answers entity stops after phase' := by
  cases went with
  | rested => exact heading
  | answered _ turned => exact heading.answered turned
  | @ran _ func _ turned =>
      by_cases parsing : func = .parseInvoice
      · subst parsing
        exact heading.parse stands turned
      · by_cases fail : func = .failInvoiceAmountAndAmount
        · subst fail
          refine ⟨⟨fun _ => heading.decided.mp ?_, fun _ => trivial⟩, fun same => by cases same⟩
          exact stops_of_firstMatch stands.fits.2 (by decide)
        · have ends := EcsSystemFunction.effect_ending parsing fail answers.nonce blocks
            (flow.plugin.ec.current entity)
          refine ⟨?_, fun same => absurd same (Effect.next_ne_decoding ends _ _ _)⟩
          rw [stopsAt_advanced ends, ← heading.decided]
          refine Stops.congr fun component member => turned.cell_eq ?_ (watched_apart _ member)
          intro m written same
          exact EcsSystemFunction.effect_unwatched parsing fail _ _ _ m written (same ▸ member)

end Heading

/-! ## Every other system runs at most once -/

/-- The components by which the systems disable themselves. -/
def markers : List Text :=
  ["lightningd:nonce".toList, parseRanComp, "lightningd:amount".toList,
    "lightningd:riskfactor".toList, "lightningd:maxfeepercent".toList,
    "lightningd:retry_for".toList, "lightningd:maxdelay".toList, "lightningd:exemptfee".toList]

/-- Those not attached yet. -/
def unmarked (ec : Ec) (entity : UInt32) : Finset Text :=
  markers.toFinset.filter fun component => ec.cell entity component = none

theorem formatU_notNull (n : Nat) : (Json.primitive (formatU n)).jsonTokIsNull = false := by
  cases digits : formatU n with
  | nil => rfl
  | cons c rest =>
      have digit : c.isDigit = true := isDigit_of_mem_formatU (n := n) (by simp [digits])
      have differ : c ≠ 'n' := by
        rintro rfl
        cases digit
      simp [Json.jsonTokIsNull, differ]

theorem Ec.Consistent.current_notNull {ec : Ec} (consistent : ec.Consistent) {entity : UInt32}
    {component : Text} (there : (ec.cell entity component).isSome) :
    (ec.current entity component).jsonTokIsNull = false := by
  obtain ⟨datum, found⟩ := Option.isSome_iff_exists.mp there
  obtain ⟨cell, lookup, rfl⟩ := Option.map_eq_some_iff.mp found
  rw [Ec.current, found, Option.getD_some]
  exact consistent.notNull lookup

theorem EcsSystemFunction.effect_attaches {func : EcsSystemFunction} {nonce : Nonce} {blocks : Nat}
    {values : Text → Json} (given : ∀ component ∈ func.registered.requiredComponents,
      (values component).jsonTokIsNull = false) :
    ∀ m ∈ (func.effect nonce blocks values).writes, m.1 ∈ markers → m.2.jsonTokIsNull = false := by
  cases func with
  | failInvoiceAmountAndAmount =>
      exact List.forall_mem_cons.mpr ⟨fun member => absurd member (by decide),
        List.forall_mem_singleton.mpr fun member => absurd member (by decide)⟩
  | invoiceAmountMsat =>
      exact List.forall_mem_cons.mpr ⟨fun member => absurd member (by decide),
        List.forall_mem_singleton.mpr fun _ => given _ (by decide)⟩
  | defaulterMaxdelay => exact List.forall_mem_singleton.mpr fun _ => formatU_notNull blocks
  | generateNonce | parseInvoice | promoteInvoiceType | defaulterRiskfactor
  | defaulterMaxfeepercent | defaulterRetryFor | defaulterExemptfee =>
      exact List.forall_mem_singleton.mpr fun _ => rfl

theorem EcsSystemFunction.effect_marks {func : EcsSystemFunction}
    (promote : func ≠ .promoteInvoiceType) (fail : func ≠ .failInvoiceAmountAndAmount)
    (nonce : Nonce) (blocks : Nat) (values : Text → Json) :
    ∃ component ∈ func.registered.disallowedComponents, component ∈ markers ∧
      (Ec.lastValue (func.effect nonce blocks values).writes component).isSome := by
  cases func with
  | promoteInvoiceType => exact absurd rfl promote
  | failInvoiceAmountAndAmount => exact absurd rfl fail
  | _ => exact ⟨_, List.mem_singleton.mpr rfl, by decide, rfl⟩

/-- A reply of `decode` writes no marker, and an advance none either. -/
theorem markers_apart : ∀ component ∈ markers, component ≠ syscomp ∧ component ≠ errcomp ∧
    ¬ invoicePrefix <+: component := by decide +kernel

theorem Flow.Turned.unmarked_subset {blocks : Nat} {entity : UInt32} {effect : Effect}
    {flow after : Flow} (turned : flow.Turned blocks entity effect after)
    (attaches : ∀ m ∈ effect.writes, m.1 ∈ markers → m.2.jsonTokIsNull = false) :
    unmarked after.plugin.ec entity ⊆ unmarked flow.plugin.ec entity := by
  intro component member
  rw [unmarked, Finset.mem_filter, List.mem_toFinset] at member ⊢
  refine ⟨member.1, ?_⟩
  have other : syscomp ≠ component := (markers_apart component member.1).1.symm
  have after := member.2
  rw [turned.cells component other, Ec.cell_setAll, if_pos rfl] at after
  cases last : Ec.lastValue effect.writes component with
  | none => simpa [last] using after
  | some value =>
      have notNull := attaches _ (Ec.mem_of_lastValue last) member.1
      simp [last, attached_some, notNull] at after

theorem Flow.At.unmarked_ssubset {blocks : Nat} {entity : UInt32} {flow after : Flow}
    {func : EcsSystemFunction} (stands : flow.At blocks entity (.notified func)) {nonce : Nonce}
    (promote : func ≠ .promoteInvoiceType) (fail : func ≠ .failInvoiceAmountAndAmount)
    (turned : flow.Turned blocks entity
      (func.effect nonce blocks (flow.plugin.ec.current entity)) after) :
    unmarked after.plugin.ec entity ⊂ unmarked flow.plugin.ec entity := by
  have hit := firstMatch_some stands.fits.2
  have attaches := @EcsSystemFunction.effect_attaches func nonce blocks
    (flow.plugin.ec.current entity)
    fun component member => stands.ok.consistent.current_notNull (hit.required component member)
  obtain ⟨component, disallowed, marker, written⟩ :=
    EcsSystemFunction.effect_marks promote fail nonce blocks (flow.plugin.ec.current entity)
  obtain ⟨value, last⟩ := Option.isSome_iff_exists.mp written
  refine (turned.unmarked_subset attaches).ssubset_of_mem_notMem
    (Finset.mem_filter.mpr ⟨List.mem_toFinset.mpr marker, hit.disallowed _ disallowed⟩)
    fun member => ?_
  have other : syscomp ≠ component := (markers_apart component marker).1.symm
  have absent := (Finset.mem_filter.mp member).2
  have notNull := attaches _ (Ec.mem_of_lastValue last) marker
  rw [turned.cells component other, Ec.cell_setAll, if_pos rfl, last] at absent
  simp [attached_some, notNull] at absent

/-- The invocations that are left: one for each marker, and one to give up. -/
def Budget (entity : UInt32) (flow : Flow) : Phase → Prop
  | .stopped => flow.invocations ≤ 9
  | _ => flow.invocations + (unmarked flow.plugin.ec entity).card ≤ 8

/-- How far it is to rest. -/
def distance (entity : UInt32) (flow : Flow) : Phase → Nat
  | .notified _ => 2 * (unmarked flow.plugin.ec entity).card + 1
  | .decoding _ => 2 * (unmarked flow.plugin.ec entity).card + 2
  | .exhausted | .stopped => 0

theorem budget_of_le {entity : UInt32} {flow : Flow} {phase : Phase}
    (enough : flow.invocations + (unmarked flow.plugin.ec entity).card ≤ 8) :
    Budget entity flow phase := by
  cases phase with
  | stopped =>
      rw [Budget]
      omega
  | notified | decoding | exhausted => exact enough

theorem distance_le {entity : UInt32} {flow : Flow} (phase : Phase) :
    distance entity flow phase ≤ 2 * (unmarked flow.plugin.ec entity).card + 2 := by
  cases phase <;> simp [distance]

theorem budget_keeps {answers : Answers} {blocks : Nat} {entity : UInt32} {flow after : Flow}
    {phase phase' : Phase} (stands : flow.At blocks entity phase)
    (heading : Heading answers entity True flow phase) (budget : Budget entity flow phase)
    (went : Flow.Went answers blocks entity flow phase after phase') :
    Budget entity after phase' ∧
      (¬ phase.Resting → distance entity after phase' < distance entity flow phase) := by
  cases went with
  | rested resting => exact ⟨budget, fun going => absurd resting going⟩
  | answered invocations turned =>
      rename_i string
      have enough : flow.invocations + (unmarked flow.plugin.ec entity).card ≤ 8 := budget
      have fewer := Finset.card_le_card (turned.unmarked_subset fun m written member =>
        absurd member ((answers.decode string).effect_apart markers_apart m written))
      refine ⟨budget_of_le (by omega), fun _ => ?_⟩
      cases reply : answers.decode string with
      | error res => simp [DecodeReply.effect, Effect.next, distance]
      | result text members =>
          unfold Effect.next DecodeReply.effect
          cases firstMatch after.plugin.ec entity with
          | none => simp [distance]
          | some func =>
              simp only [Option.elim_some, distance]
              omega
  | ran invocations turned =>
      rename_i func
      have enough : flow.invocations + (unmarked flow.plugin.ec entity).card ≤ 8 := budget
      by_cases fail : func = .failInvoiceAmountAndAmount
      · subst fail
        refine ⟨?_, fun _ => by simp [EcsSystemFunction.effect, Effect.next, distance]⟩
        simp only [EcsSystemFunction.effect, Effect.next, Budget]
        omega
      · have promote : func ≠ .promoteInvoiceType := by
          rintro rfl
          exact not_stops_of_promote stands.fits.2 (heading.decided.mpr trivial)
        have fewer := Finset.card_lt_card (stands.unmarked_ssubset promote fail turned)
        refine ⟨budget_of_le (by omega), fun _ => ?_⟩
        have bound := @distance_le entity after ((func.effect answers.nonce blocks
          (flow.plugin.ec.current entity)).next after.plugin.ec entity)
        simp only [distance] at bound ⊢
        omega

/-! ## The flow comes to rest exactly if `promote_invoice_type` does not run -/

theorem Flow.At.atRest {blocks : Nat} {entity : UInt32} {flow : Flow} {phase : Phase}
    (stands : flow.At blocks entity phase) (resting : phase.Resting) : flow.AtRest entity := by
  cases phase with
  | notified | decoding => cases resting
  | exhausted => exact ⟨stands.notifications, stands.requests, .inl stands.report⟩
  | stopped => exact ⟨stands.notifications, stands.requests, .inr stands.fits⟩

theorem Flow.At.resting {blocks : Nat} {entity : UInt32} {flow : Flow} {phase : Phase}
    (stands : flow.At blocks entity phase) (rest : flow.AtRest entity) : phase.Resting := by
  cases phase with
  | notified func =>
      have one := stands.notifications
      rw [rest.notifications] at one
      cases one
  | decoding string =>
      have one := stands.requests
      rw [rest.requests] at one
      cases one
  | exhausted | stopped => trivial

section Rest

variable {answers : Answers} {blocks : Nat} {entity : UInt32} {p : Plugin} {params : Json}

theorem Ready.heading (ready : Ready blocks entity p) (answers : Answers) (wellFormed : params.WellFormed)
    (args : payecsAdvanceArgs params = .ok entity) :
    ∃ flow phase, flowStart p params = .ok flow ∧ flow.invocations = 0 ∧
      flow.At blocks entity phase ∧
      Heading answers entity (Stops answers p.ec entity) flow phase := by
  obtain ⟨flow, started, invocations, turned⟩ := Flow.starts ready.ok ready.notifications
    ready.requests ready.named wellFormed args
  have ends : (Effect.mk [] .advance).ending = .advance := rfl
  refine ⟨flow, _, started, invocations, turned.stands, ?_, fun same =>
    absurd same (Effect.next_ne_decoding ends _ _ _)⟩
  rw [stopsAt_advanced ends]
  exact Stops.congr fun component member => turned.cell_eq (by simp) (watched_apart _ member)

theorem stops_of_atRest (replies : ∀ string, (answers.decode string).WellFormed)
    (ready : Ready blocks entity p) (wellFormed : params.WellFormed)
    (args : payecsAdvanceArgs params = .ok entity) {flow done : Flow} {turns : Nat}
    (started : flowStart p params = .ok flow) (ran : flowRun answers turns flow = .ok done)
    (rest : done.AtRest entity) : Stops answers p.ec entity := by
  obtain ⟨flow', phase, started', -, stands, heading⟩ :=
    ready.heading answers wellFormed args
  obtain rfl : flow' = flow := Except.ok.inj (started'.symm.trans started)
  obtain ⟨after, phase', ran', stands', heading'⟩ :=
    stands.run replies (P := Heading answers entity (Stops answers p.ec entity))
      (fun stands heading went => heading.keeps stands went) heading turns
  obtain rfl : after = done := Except.ok.inj (ran'.symm.trans ran)
  refine heading'.decided.mp ?_
  have resting := stands'.resting rest
  cases phase' with
  | notified | decoding => cases resting
  | stopped => trivial
  | exhausted => exact stops_of_firstMatch stands'.fits.2 (by simp)

/-- The default flow comes to rest, within as many invocations as there are built-in
    systems, exactly if `promote_invoice_type` does not get to run: its marker is attached
    from the start, or it sees no type, be it that none is attached or that `decode` fails
    or removes it. -/
theorem default_flow_rests_iff (replies : ∀ string, (answers.decode string).WellFormed)
    (ready : Ready blocks entity p) (wellFormed : params.WellFormed)
    (args : payecsAdvanceArgs params = .ok entity) :
    (∃ flow turns done, flowStart p params = .ok flow ∧ flowRun answers turns flow = .ok done ∧
      done.invocations ≤ builtins.length ∧ done.AtRest entity) ↔ Stops answers p.ec entity := by
  constructor
  · rintro ⟨flow, turns, done, started, ran, -, rest⟩
    exact stops_of_atRest replies ready wellFormed args started ran rest
  · intro stops
    obtain ⟨flow, phase, started, invocations, stands, heading⟩ :=
      ready.heading answers wellFormed args
    have heading : Heading answers entity True flow phase :=
      ⟨by simpa [stops] using heading.decided, heading.marked⟩
    have budget : Budget entity flow phase := by
      have few : (unmarked flow.plugin.ec entity).card ≤ 8 :=
        (Finset.card_filter_le _ _).trans (List.toFinset_card_le markers)
      exact budget_of_le (by omega)
    obtain ⟨turns, done, phase', ran, stands', kept, resting⟩ := stands.rests replies
      (P := fun flow phase => Heading answers entity True flow phase ∧ Budget entity flow phase)
      (distance entity)
      (fun stands both went =>
        ⟨both.1.keeps stands went, (budget_keeps stands both.1 both.2 went).1⟩)
      (fun stands both went going => (budget_keeps stands both.1 both.2 went).2 going)
      ⟨heading, budget⟩
    refine ⟨flow, turns, done, started, ran, ?_, stands'.atRest resting⟩
    have bound := kept.2
    cases phase' with
    | notified | decoding => cases resting
    | stopped => exact bound.trans (by decide)
    | exhausted => exact (Nat.le_add_right _ _).trans (bound.trans (by decide))

end Rest

/-- Entity 1 has these components and the default systems. -/
def pluginWith (components : List (Text × Json)) : Plugin :=
  { Plugin.init (.primitive (formatU 2016)) with
    ec := ecNew.setAll 1 (components ++
      [(syscomp, .tight [("systems".toList, stringArray defaultSystems)])]) }

theorem ready_pluginWith {components : List (Text × Json)}
    (values : ∀ m ∈ components, m.2.WellFormed) : Ready 2016 1 (pluginWith components) where
  ok := by
    refine ⟨registriesAgree_setup, Ec.consistent_ecNew.setAll _ _, ?_, rfl,
      by simp [pluginWith, Plugin.init]⟩
    have systems : (Json.tight [("systems".toList, stringArray defaultSystems)]).WellFormed :=
      .tight (List.forall_mem_singleton.mpr (.of_plain rfl))
        (List.forall_mem_singleton.mpr (stringArray_wellFormed _))
    have all : ∀ m ∈ components ++
        [(syscomp, Json.tight [("systems".toList, stringArray defaultSystems)])],
        m.2.WellFormed := by
      intro m member
      rcases List.mem_append.mp member with given | last
      · exact values m given
      · cases List.mem_singleton.mp last
        exact systems
    intro entity component datum found
    exact Ec.All.setAll (Ec.all_ecNew _) 1 all found
  notifications := rfl
  requests := rfl
  named := by
    have current : (pluginWith components).ec.current 1 syscomp =
        .tight [("systems".toList, stringArray defaultSystems)] := by
      rw [Ec.current, pluginWith, Ec.cell_setAll, if_pos rfl, Ec.lastValue_append, if_pos rfl]
      rfl
    have member : ∀ value, (Json.tight [("systems".toList, value)]).jsonGetMember
        "systems".toList = some value := fun value => by simp [Json.tight, Json.jsonGetMember]
    rw [namesSystems_iff_member, current, member, Option.bind_some,
      jsonToArrayOfStrings_stringArray writable_defaultSystems]

def invoicePlugin : Plugin := pluginWith [(invoiceComp, .string "lnbc1".toList)]

theorem ready_invoicePlugin : Ready 2016 1 invoicePlugin :=
  ready_pluginWith (List.forall_mem_singleton.mpr (.string (.of_plain rfl)))

def undecodable : Answers where
  nonce := Vector.replicate 32 0
  decode _ := .error (.string "unparsable".toList)

def bolt11 : Answers where
  nonce := Vector.replicate 32 0
  decode _ := .result (Json.tight [("type".toList, .string "bolt11 invoice".toList)]).jsonTokFull
    [("type".toList, .string "bolt11 invoice".toList)]

/-- With an invoice that cannot be decoded the flow comes to rest. -/
theorem default_flow_rests_undecodable :
    ∃ flow turns done, flowStart invoicePlugin (entityParams 1) = .ok flow ∧
      flowRun undecodable turns flow = .ok done ∧ done.invocations ≤ builtins.length ∧
      done.AtRest 1 := by
  have replies : ∀ string, (undecodable.decode string).WellFormed := fun _ =>
    .string (.of_plain rfl)
  refine (default_flow_rests_iff replies ready_invoicePlugin (entityParams_wellFormed 1)
    (payecsAdvanceArgs_entityParams 1)).mpr (.inr ?_)
  rfl

/-- With an invoice of a known type it never does. -/
theorem default_flow_bolt11_never_rests :
    ¬ ∃ flow turns done, flowStart invoicePlugin (entityParams 1) = .ok flow ∧
      flowRun bolt11 turns flow = .ok done ∧ done.invocations ≤ builtins.length ∧
      done.AtRest 1 := by
  have replies : ∀ string, (bolt11.decode string).WellFormed := by
    intro string
    have tight : (Json.tight [("type".toList, .string "bolt11 invoice".toList)]).WellFormed :=
      .tight (List.forall_mem_singleton.mpr (.of_plain rfl))
        (List.forall_mem_singleton.mpr (.string (.of_plain rfl)))
    exact tight
  rintro ⟨flow, turns, done, started, ran, -, rest⟩
  have stops := stops_of_atRest replies ready_invoicePlugin (entityParams_wellFormed 1)
    (payecsAdvanceArgs_entityParams 1) started ran rest
  rcases stops with marked | unseen
  · cases marked
  · cases unseen

end Payz
