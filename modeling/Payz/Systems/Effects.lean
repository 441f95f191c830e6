import Payz.Systems.Functions

/-! # What the built-in systems do

Each function sets some components of its entity and then ends in one of three ways.
`Effect` says so once for all of them, and what follows is about effects only.
-/

namespace Payz

/-- How a function ends. -/
inductive Ending where
  | advance
  | done
  | decode (string : Json)

/-- Components that are set one after the other, a `null` for one that is detached,
    and the end. -/
structure Effect where
  writes : List (Text × Json)
  ending : Ending

/-- `lightningd:error`. -/
def errcomp : Text := "lightningd:error".toList

/-- What `tal_fmt` puts before the keys of a `decode` result. -/
def invoicePrefix : Text := "lightningd:invoice:".toList

def trueDatum : Json := .primitive "true".toList

/-- What a function does, given the random bytes, the locktime limit and the values of the
    components it requires. -/
def EcsSystemFunction.effect (nonce : Nonce) (blocks : Nat) (values : Text → Json) :
    EcsSystemFunction → Effect
  | .generateNonce =>
      ⟨[("lightningd:nonce".toList, .string (talHexstr nonce.toList))], .advance⟩
  | .parseInvoice =>
      ⟨[("lightningd:parse_invoice:ran".toList, trueDatum)],
        .decode (values "lightningd:invoice".toList)⟩
  | .promoteInvoiceType =>
      ⟨[("lightningd:invoice:type:".toList ++
        (values "lightningd:invoice:type".toList).jsonStrdup, trueDatum)], .advance⟩
  | .invoiceAmountMsat =>
      ⟨[("lightningd:invoice:amount_msat".toList, nullDatum),
        ("lightningd:amount".toList, values "lightningd:invoice:amount_msat".toList)], .advance⟩
  | .failInvoiceAmountAndAmount =>
      ⟨[(errcomp, ecsysError jsonrpc2InvalidParams "msatoshi parameter unnecessary".toList),
        (syscomp, nullDatum)], .done⟩
  | .defaulterRiskfactor => ⟨[("lightningd:riskfactor".toList, .primitive "10".toList)], .advance⟩
  | .defaulterMaxfeepercent =>
      ⟨[("lightningd:maxfeepercent".toList, .primitive "0.5".toList)], .advance⟩
  | .defaulterRetryFor => ⟨[("lightningd:retry_for".toList, .primitive "60".toList)], .advance⟩
  | .defaulterMaxdelay =>
      ⟨[("lightningd:maxdelay".toList, .primitive (formatU blocks))], .advance⟩
  | .defaulterExemptfee =>
      ⟨[("lightningd:exemptfee".toList, .string "5000msat".toList)], .advance⟩

/-- What the callbacks of `decode` do. -/
def DecodeReply.effect : DecodeReply → Effect
  | .result _ members => ⟨members.map fun m => (invoicePrefix ++ m.1, m.2), .advance⟩
  | .error res => ⟨[(errcomp, res), (syscomp, nullDatum)], .done⟩

/-- What comes of an effect on an entity. -/
def Effect.outcome (effect : Effect) (systems : SystemMap) (ec : Ec) (entity : UInt32) : Outcome :=
  let ec := ec.setAll entity effect.writes
  match effect.ending with
  | .advance =>
      let advanced := advanceSpec systems ec entity
      ⟨advanced.ec, advanced.emitted, [], advanced.error⟩
  | .done => ⟨ec, [], [], none⟩
  | .decode string => ⟨ec, [], [⟨entity, string⟩], none⟩

/-! ## The functions have these effects -/

theorem plain_hexchar {val : Nat} (small : val < 16) :
    hexchar val ≠ '"' ∧ hexchar val ≠ '\\' ∧ hexchar val ≠ '\x00' := by
  have all : ∀ v : Fin 16, hexchar v.1 ≠ '"' ∧ hexchar v.1 ≠ '\\' ∧ hexchar v.1 ≠ '\x00' := by
    decide
  exact all ⟨val, small⟩

theorem stringText_talHexstr (data : List UInt8) : StringText (talHexstr data) := by
  refine .of_forall fun c member => ?_
  obtain ⟨byte, -, digit⟩ := List.mem_flatMap.mp member
  have small : byte.toNat < 256 := byte.toNat_lt
  simp only [List.mem_cons, List.not_mem_nil, or_false] at digit
  rcases digit with rfl | rfl
  · exact plain_hexchar (by omega)
  · exact plain_hexchar (by omega)

theorem trueDatum_wellFormed : trueDatum.WellFormed := .primitive (.inr (.inl rfl))

theorem maxfeepercentDatum_wellFormed : (Json.primitive "0.5".toList).WellFormed := by
  have number : NumberText "0.5".toList :=
    ⟨'0', ".5".toList, rfl, .inr rfl, forall_mem_of_all rfl⟩
  exact .primitive (.inr (.inr (.inr number)))

theorem setDatumAndAdvance_eq (systems : SystemMap) {ec : Ec} (data : ec.All Json.WellFormed)
    (entity : UInt32) (component : Text) {datum : Json} (wellFormed : datum.WellFormed) :
    setDatumAndAdvance systems ec entity component (some datum.jsonTokFull) =
      .ok (Effect.outcome ⟨[(component, datum)], .advance⟩ systems ec entity) := by
  have kept : (ecSetComponent ec entity component (some datum)).All Json.WellFormed := by
    refine data.set entity component ?_
    rintro other same
    cases same
    exact wellFormed
  simp only [setDatumAndAdvance, ecSetComponentDatum, jsonParseSimple_wellFormed wellFormed,
    ecsAdvanceDone, ecsysAdvanceDone_eq systems kept]
  rfl

theorem amountAndAmountText_eq : amountAndAmountText =
    ecsysErrorText jsonrpc2InvalidParams "msatoshi parameter unnecessary".toList := rfl

theorem decodeReplied_eq (systems : SystemMap) {ec : Ec} (data : ec.All Json.WellFormed)
    (request : DecodeRequest) {reply : DecodeReply}
    (values : ∀ m ∈ reply.effect.writes, m.2.WellFormed) :
    decodeReplied systems ec request reply =
      .ok (reply.effect.outcome systems ec request.entity) := by
  cases reply with
  | error res => rfl
  | result text members =>
      have written : members.foldl (fun ec m => ecSetComponent ec request.entity
          ("lightningd:invoice:".toList ++ m.1) (some m.2)) ec =
            ec.setAll request.entity (DecodeReply.result text members).effect.writes := by
        rw [DecodeReply.effect, Ec.setAll, List.foldl_map]
        rfl
      rw [decodeReplied, parseInvoiceDecodeOk, written, ecsAdvanceDone,
        ecsysAdvanceDone_eq systems (data.setAll request.entity values)]
      rfl

/-- Called with the components it requires, a function does not abort. -/
theorem EcsSystemFunction.call_eq (func : EcsSystemFunction) (systems : SystemMap) (nonce : Nonce)
    (blocks : Nat) {ec : Ec} (data : ec.All Json.WellFormed) (entity : UInt32) {eo : Json}
    {values : Text → Json}
    (given : ∀ component ∈ func.registered.requiredComponents,
      eo.jsonGetMember component = some (values component))
    (wellFormed : ∀ component ∈ func.registered.requiredComponents,
      (values component).WellFormed) :
    func.call ⟨systems, some (formatU blocks), nonce⟩ ec entity eo =
      .ok ((func.effect nonce blocks values).outcome systems ec entity) := by
  cases func with
  | generateNonce =>
      exact setDatumAndAdvance_eq systems data entity _ (.string (stringText_talHexstr _))
  | parseInvoice =>
      have parsed : jsonParseSimple "true".toList = some trueDatum :=
        jsonParseSimple_wellFormed trueDatum_wellFormed
      simp only [call, Payz.parseInvoice, ecSetComponentDatum, parsed,
        given "lightningd:invoice".toList (by decide)]
      rfl
  | promoteInvoiceType =>
      simp only [call, Payz.promoteInvoiceType, given "lightningd:invoice:type".toList (by decide)]
      exact setDatumAndAdvance_eq systems data entity _ trueDatum_wellFormed
  | invoiceAmountMsat =>
      have value := wellFormed "lightningd:invoice:amount_msat".toList (by decide)
      have kept : (ec.setAll entity
          (effect nonce blocks values .invoiceAmountMsat).writes).All Json.WellFormed := by
        refine data.setAll entity ?_
        simp only [effect, List.forall_mem_cons]
        exact ⟨nullDatum_wellFormed, value, by simp⟩
      simp only [call, Payz.invoiceAmountMsat, ecSetComponentDatum,
        given "lightningd:invoice:amount_msat".toList (by decide)]
      exact congrArg (Except.map _) (ecsysAdvanceDone_eq systems kept entity)
  | failInvoiceAmountAndAmount =>
      simp only [call, Payz.failInvoiceAmountAndAmount, amountAndAmountText_eq, ecSetComponentDatum,
        jsonParseSimple_ecsysErrorText]
      rfl
  | defaulterRiskfactor =>
      exact setDatumAndAdvance_eq systems data entity _ (.formatU 10)
  | defaulterMaxfeepercent =>
      exact setDatumAndAdvance_eq systems data entity _ maxfeepercentDatum_wellFormed
  | defaulterRetryFor =>
      exact setDatumAndAdvance_eq systems data entity _ (.formatU 60)
  | defaulterMaxdelay =>
      exact setDatumAndAdvance_eq systems data entity _ (.formatU blocks)
  | defaulterExemptfee =>
      have text : StringText "5000msat".toList := .of_plain rfl
      have quoted : defaultExemptfee = (Json.string "5000msat".toList).jsonTokFull := by decide
      rw [call, Payz.defaulterExemptfee, quoted]
      exact setDatumAndAdvance_eq systems data entity _ (.string text)

/-! ## What is written -/

theorem invoicePrefix_type (type : Text) :
    invoicePrefix <+: "lightningd:invoice:type:".toList ++ type := by
  have whole : "lightningd:invoice:type:".toList = invoicePrefix ++ "type:".toList := by decide
  rw [whole, List.append_assoc]
  exact List.prefix_append _ _

/-- A component that is not one's own to write: it is neither disallowed nor about the
    invoice, the systems or an error. -/
theorem EcsSystemFunction.effect_writes (func : EcsSystemFunction) (nonce : Nonce) (blocks : Nat)
    (values : Text → Json) {m : Text × Json}
    (member : m ∈ (func.effect nonce blocks values).writes) :
    m.1 ∈ func.registered.disallowedComponents ∨ m.1 = syscomp ∨ m.1 = errcomp ∨
      invoicePrefix <+: m.1 := by
  cases func with
  | generateNonce | parseInvoice | defaulterRiskfactor | defaulterMaxfeepercent
  | defaulterRetryFor | defaulterMaxdelay | defaulterExemptfee =>
      cases List.mem_singleton.mp member
      exact .inl (List.mem_singleton.mpr rfl)
  | promoteInvoiceType =>
      cases List.mem_singleton.mp member
      exact .inr (.inr (.inr (invoicePrefix_type _)))
  | invoiceAmountMsat =>
      rcases List.mem_cons.mp member with rfl | last
      · exact .inr (.inr (.inr ⟨"amount_msat".toList, rfl⟩))
      · cases List.mem_singleton.mp last
        exact .inl (List.mem_singleton.mpr rfl)
  | failInvoiceAmountAndAmount =>
      rcases List.mem_cons.mp member with rfl | last
      · exact .inr (.inr (.inl rfl))
      · cases List.mem_singleton.mp last
        exact .inr (.inl rfl)

theorem DecodeReply.effect_writes (reply : DecodeReply) {m : Text × Json}
    (member : m ∈ reply.effect.writes) :
    m.1 = syscomp ∨ m.1 = errcomp ∨ invoicePrefix <+: m.1 := by
  cases reply with
  | result text members =>
      obtain ⟨m', -, rfl⟩ := List.mem_map.mp member
      exact .inr (.inr ⟨m'.1, rfl⟩)
  | error res =>
      rcases List.mem_cons.mp member with rfl | last
      · exact .inr (.inl rfl)
      · cases List.mem_singleton.mp last
        exact .inl rfl

/-- The components a system writes, but for the one that `promote_invoice_type` names. -/
def EcsSystemFunction.outputs : EcsSystemFunction → List Text
  | .generateNonce => ["lightningd:nonce".toList]
  | .parseInvoice => ["lightningd:parse_invoice:ran".toList]
  | .promoteInvoiceType => []
  | .invoiceAmountMsat => ["lightningd:invoice:amount_msat".toList, "lightningd:amount".toList]
  | .failInvoiceAmountAndAmount => [errcomp, syscomp]
  | .defaulterRiskfactor => ["lightningd:riskfactor".toList]
  | .defaulterMaxfeepercent => ["lightningd:maxfeepercent".toList]
  | .defaulterRetryFor => ["lightningd:retry_for".toList]
  | .defaulterMaxdelay => ["lightningd:maxdelay".toList]
  | .defaulterExemptfee => ["lightningd:exemptfee".toList]

theorem EcsSystemFunction.effect_outputs (func : EcsSystemFunction) (nonce : Nonce) (blocks : Nat)
    (values : Text → Json) {m : Text × Json}
    (member : m ∈ (func.effect nonce blocks values).writes) :
    m.1 ∈ func.outputs ∨ "lightningd:invoice:type:".toList <+: m.1 := by
  cases func with
  | promoteInvoiceType =>
      cases List.mem_singleton.mp member
      exact .inr ⟨_, rfl⟩
  | _ => exact .inl (List.mem_map_of_mem (f := Prod.fst) member)

/-- A system leaves alone what is not among its outputs and no promoted type. -/
theorem EcsSystemFunction.effect_apart {func : EcsSystemFunction} {components : List Text}
    (apart : ∀ component ∈ components, component ∉ func.outputs ∧
      ¬ "lightningd:invoice:type:".toList <+: component)
    (nonce : Nonce) (blocks : Nat) (values : Text → Json) :
    ∀ m ∈ (func.effect nonce blocks values).writes, m.1 ∉ components := by
  intro m written member
  rcases func.effect_outputs nonce blocks values written with fixed | type
  · exact (apart _ member).1 fixed
  · exact (apart _ member).2 type

/-- A reply of `decode` leaves alone what is not about the invoice, the systems or the error. -/
theorem DecodeReply.effect_apart {components : List Text}
    (apart : ∀ component ∈ components, component ≠ syscomp ∧ component ≠ errcomp ∧
      ¬ invoicePrefix <+: component) (reply : DecodeReply) :
    ∀ m ∈ reply.effect.writes, m.1 ∉ components := by
  intro m written member
  obtain ⟨system, error, invoice⟩ := apart _ member
  rcases reply.effect_writes written with same | same | about
  · exact system same
  · exact error same
  · exact invoice about

theorem lastValue_invoicePrefix (members : List (Text × Json)) (key : Text) :
    Ec.lastValue (members.map fun m => (invoicePrefix ++ m.1, m.2)) (invoicePrefix ++ key) =
      Ec.lastValue members key := by
  have same : ((fun m : Text × Json => m.1 == invoicePrefix ++ key) ∘
      fun m : Text × Json => (invoicePrefix ++ m.1, m.2)) = fun m => m.1 == key := by
    funext m
    rw [Bool.eq_iff_iff]
    simp
  simp only [Ec.lastValue, List.filter_map, same, List.getLast?_map, Option.map_map]
  rfl

theorem EcsSystemFunction.effect_wellFormed (func : EcsSystemFunction) (nonce : Nonce) (blocks : Nat)
    {values : Text → Json} (wellFormed : ∀ component ∈ func.registered.requiredComponents,
      (values component).WellFormed) :
    ∀ m ∈ (func.effect nonce blocks values).writes, m.2.WellFormed := by
  cases func with
  | generateNonce =>
      exact List.forall_mem_singleton.mpr (.string (stringText_talHexstr _))
  | parseInvoice | promoteInvoiceType => exact List.forall_mem_singleton.mpr trueDatum_wellFormed
  | invoiceAmountMsat =>
      exact List.forall_mem_cons.mpr ⟨nullDatum_wellFormed,
        List.forall_mem_singleton.mpr (wellFormed _ (by decide))⟩
  | failInvoiceAmountAndAmount =>
      exact List.forall_mem_cons.mpr ⟨ecsysError_wellFormed _ _,
        List.forall_mem_singleton.mpr nullDatum_wellFormed⟩
  | defaulterRiskfactor =>
      exact List.forall_mem_singleton.mpr (.formatU 10)
  | defaulterMaxfeepercent =>
      exact List.forall_mem_singleton.mpr maxfeepercentDatum_wellFormed
  | defaulterRetryFor =>
      exact List.forall_mem_singleton.mpr (.formatU 60)
  | defaulterMaxdelay => exact List.forall_mem_singleton.mpr (.formatU blocks)
  | defaulterExemptfee =>
      exact List.forall_mem_singleton.mpr (.string (.of_plain rfl))

/-- Until it is done with its entity, an effect leaves the systems and the error of the
    entity alone; then it detaches the systems. -/
structure Effect.Sound (effect : Effect) : Prop where
  keeps : effect.ending ≠ .done → ∀ m ∈ effect.writes, m.1 ≠ syscomp ∧ m.1 ≠ errcomp
  stops : effect.ending = .done → Ec.lastValue effect.writes syscomp = some nullDatum

theorem ne_of_invoicePrefix {component other : Text} (about : invoicePrefix <+: component)
    (apart : ¬ invoicePrefix <+: other) : component ≠ other := by
  rintro rfl
  exact apart about

theorem Effect.Sound.single {component : Text} {value : Json} {ending : Ending}
    (goes : ending ≠ .done) (apart : component ≠ syscomp ∧ component ≠ errcomp) :
    Effect.Sound ⟨[(component, value)], ending⟩ :=
  ⟨fun _ => List.forall_mem_singleton.mpr apart, fun ends => absurd ends goes⟩

theorem EcsSystemFunction.effect_sound (func : EcsSystemFunction) (nonce : Nonce) (blocks : Nat)
    (values : Text → Json) : (func.effect nonce blocks values).Sound := by
  cases func with
  | failInvoiceAmountAndAmount => exact ⟨fun ends => absurd rfl ends, fun _ => rfl⟩
  | promoteInvoiceType =>
      have about := invoicePrefix_type (values "lightningd:invoice:type".toList).jsonStrdup
      exact .single (by simp) ⟨ne_of_invoicePrefix about (by decide),
        ne_of_invoicePrefix about (by decide)⟩
  | invoiceAmountMsat =>
      refine ⟨fun _ => List.forall_mem_cons.mpr ⟨by decide, ?_⟩, fun ends => by cases ends⟩
      exact List.forall_mem_singleton.mpr (by dsimp only; decide)
  | generateNonce | parseInvoice | defaulterRiskfactor | defaulterMaxfeepercent
  | defaulterRetryFor | defaulterMaxdelay | defaulterExemptfee => exact .single (by simp) (by decide)

theorem DecodeReply.effect_sound (reply : DecodeReply) : reply.effect.Sound := by
  cases reply with
  | error res => exact ⟨fun ends => absurd rfl ends, fun _ => rfl⟩
  | result text members =>
      refine ⟨fun _ m member => ?_, fun ends => by cases ends⟩
      obtain ⟨m', -, rfl⟩ := List.mem_map.mp member
      exact ⟨ne_of_invoicePrefix ⟨m'.1, rfl⟩ (by decide), ne_of_invoicePrefix ⟨m'.1, rfl⟩ (by decide)⟩

/-! ## What comes of an effect -/

namespace Effect

variable (effect : Effect) (systems : SystemMap) (ec : Ec) (entity : UInt32)

/-- The table is that of the writes, but for `lightningd:systems`. -/
theorem cell_outcome {entity' : UInt32} {component : Text}
    (other : ¬ (entity = entity' ∧ syscomp = component)) :
    (effect.outcome systems ec entity).ec.cell entity' component =
      (ec.setAll entity effect.writes).cell entity' component := by
  unfold outcome
  cases effect.ending with
  | advance => exact cell_advanceSpec systems _ entity other
  | done | decode => rfl

theorem cell_outcome_other {entity' : UInt32} (differ : entity ≠ entity') (component : Text) :
    (effect.outcome systems ec entity).ec.cell entity' component = ec.cell entity' component := by
  rw [cell_outcome _ _ _ _ (by simp [differ]), Ec.cell_setAll, if_neg differ]

theorem consistent_outcome {ec : Ec} (consistent : ec.Consistent) :
    (effect.outcome systems ec entity).ec.Consistent := by
  have written := consistent.setAll entity effect.writes
  unfold outcome
  cases effect.ending with
  | advance => exact consistent_advanceSpec written systems entity
  | done | decode => exact written

theorem wellFormed_outcome {effect : Effect} {ec : Ec} (data : ec.All Json.WellFormed)
    (values : ∀ m ∈ effect.writes, m.2.WellFormed) :
    (effect.outcome systems ec entity).ec.All Json.WellFormed := by
  have written : (ec.setAll entity effect.writes).All Json.WellFormed := data.setAll entity values
  intro entity' component datum found
  unfold outcome at found
  cases ending : effect.ending with
  | advance =>
      rw [ending] at found
      exact wellFormed_advanceSpec written systems entity found
  | done | decode =>
      rw [ending] at found
      exact written found

theorem Sound.systemsMember_setAll {effect : Effect} (sound : effect.Sound)
    (goes : effect.ending ≠ .done) :
    systemsMember (ec.setAll entity effect.writes) entity = systemsMember ec entity := by
  apply systemsMember_congr
  rw [Ec.cell_setAll, if_pos rfl, Ec.lastValue_eq_none fun m member => (sound.keeps goes m member).1,
    Option.elim_none]

/-- A sound effect leaves the list of systems alone, unless it is done with its entity. -/
theorem Sound.systemsMember_outcome {effect : Effect} (sound : effect.Sound)
    (goes : effect.ending ≠ .done) :
    systemsMember (effect.outcome systems ec entity).ec entity = systemsMember ec entity := by
  have written := sound.systemsMember_setAll ec entity goes
  unfold outcome
  cases ends : effect.ending with
  | advance => exact (systemsMember_advanceSpec systems _ entity).trans written
  | done => exact absurd ends goes
  | decode string => exact written

theorem Sound.detached {effect : Effect} (sound : effect.Sound) (ends : effect.ending = .done) :
    (effect.outcome systems ec entity).ec.cell entity syscomp = none := by
  have same : (effect.outcome systems ec entity).ec = ec.setAll entity effect.writes := by
    rw [outcome, ends]
  rw [same, Ec.cell_setAll, if_pos rfl, sound.stops ends]
  rfl

/-- One item at most is under way afterwards: a request, or a notification that is
    current. -/
theorem outcome_cases :
    ((effect.outcome systems ec entity).emitted = [] ∧
      (effect.outcome systems ec entity).requests.length ≤ 1 ∧
      ∀ request ∈ (effect.outcome systems ec entity).requests, request.entity = entity) ∨
    ∃ n, (effect.outcome systems ec entity).emitted = [n] ∧
      (effect.outcome systems ec entity).requests = [] ∧ n.entity = entity ∧
      n.Current systems (effect.outcome systems ec entity).ec := by
  unfold outcome
  cases effect.ending with
  | advance =>
      rcases advanceSpec_emitted systems (ec.setAll entity effect.writes) entity with
        none | ⟨n, one, mine, current, -⟩
      · exact .inl ⟨none, by simp, by simp⟩
      · exact .inr ⟨n, one, rfl, mine, current⟩
  | done => exact .inl ⟨rfl, by simp, by simp⟩
  | decode string => exact .inl ⟨rfl, by simp, by simp⟩

end Effect

end Payz
