import Payz.Ecs.Advance
import Payz.Top

/-! # The functions of the built-in systems

`plugins/payz/systems`, with the two ways in which they end: `ecs_advance_done` and
`ecs_done`.  A function works on the payload it is handed, not on the table; the
table it only writes.
-/

namespace Payz

/-- The 32 bytes that `randombytes_buf` fills in. -/
abbrev Nonce : Type := Vector UInt8 32

def hexchar (val : Nat) : Char :=
  if val < 10 then Char.ofNat (48 + val) else Char.ofNat (87 + val)

def talHexstr (data : List UInt8) : Text :=
  data.flatMap fun byte => [hexchar (byte.toNat / 16), hexchar (byte.toNat % 16)]

/-- A `decode` request under way: its `string` and the entity of its
    `parse_invoice_closure`. -/
structure DecodeRequest where
  entity : UInt32
  string : Json
  deriving Repr, DecidableEq

/-- The answer to a `decode` request: a result object or an error of any kind. -/
inductive DecodeReply where
  | result (text : Text) (members : List (Text × Json))
  | error (res : Json)
  deriving Repr, DecidableEq

/-- What a function leaves behind when it returns.  The error of its advance goes to the
    log only. -/
structure Outcome where
  ec : Ec
  emitted : List Notification
  requests : List DecodeRequest
  logged : Option Int

def ecsDone (ec : Ec) : Outcome := ⟨ec, [], [], none⟩

def ecsAdvanceDone (systems : SystemMap) (ec : Ec) (entity : UInt32) : Except Fault Outcome :=
  (ecsysAdvanceDone systems ec entity).map fun advanced =>
    ⟨advanced.ec, advanced.emitted, [], advanced.error⟩

/-- `ecs_set_component_datum`, then `ecs_advance_done`. -/
def setDatumAndAdvance (systems : SystemMap) (ec : Ec) (entity : UInt32) (component : Text)
    (value : Option Text) : Except Fault Outcome :=
  match ecSetComponentDatum ec entity component value with
  | .error fault => .error fault
  | .ok ec => ecsAdvanceDone systems ec entity

def generateNonce (systems : SystemMap) (nonce : Nonce) (ec : Ec) (entity : UInt32) :
    Except Fault Outcome :=
  setDatumAndAdvance systems ec entity "lightningd:nonce".toList
    (some ('"' :: (talHexstr nonce.toList ++ ['"'])))

/-! ## Invoice parsing -/

/-- `parse_invoice`.  The marker is set before the request is written, which would
    follow a `NULL` token. -/
def parseInvoice (ec : Ec) (entity : UInt32) (eo : Json) : Except Fault Outcome :=
  match ecSetComponentDatum ec entity "lightningd:parse_invoice:ran".toList
      (some "true".toList) with
  | .error fault => .error fault
  | .ok ec =>
      match eo.jsonGetMember "lightningd:invoice".toList with
      | none => .error .outOfBounds
      | some invoice => .ok ⟨ec, [], [⟨entity, invoice⟩], none⟩

def parseInvoiceDecodeOk (systems : SystemMap) (ec : Ec) (entity : UInt32)
    (members : List (Text × Json)) : Except Fault Outcome :=
  ecsAdvanceDone systems
    (members.foldl (fun ec m =>
      ecSetComponent ec entity ("lightningd:invoice:".toList ++ m.1) (some m.2)) ec) entity

def parseInvoiceDecodeNg (ec : Ec) (entity : UInt32) (res : Json) : Outcome :=
  let ec := ecSetComponent ec entity "lightningd:error".toList (some res)
  ecsDone (ecSetComponent ec entity "lightningd:systems".toList none)

/-- The callback that `handle_rpc_reply` picks. -/
def decodeReplied (systems : SystemMap) (ec : Ec) (request : DecodeRequest) :
    DecodeReply → Except Fault Outcome
  | .result _ members => parseInvoiceDecodeOk systems ec request.entity members
  | .error res => .ok (parseInvoiceDecodeNg ec request.entity res)

def promoteInvoiceType (systems : SystemMap) (ec : Ec) (entity : UInt32) (eo : Json) :
    Except Fault Outcome :=
  match eo.jsonGetMember "lightningd:invoice:type".toList with
  | none => .error .outOfBounds
  | some typeTok =>
      setDatumAndAdvance systems ec entity
        ("lightningd:invoice:type:".toList ++ typeTok.jsonStrdup) (some "true".toList)

/-! ## The amount of an invoice -/

/-- `invoice_amount_msat`.  A buffer with a `NULL` token trips the assertion of
    `ec_set_component`. -/
def invoiceAmountMsat (systems : SystemMap) (ec : Ec) (entity : UInt32) (components : Json) :
    Except Fault Outcome :=
  match ecSetComponentDatum ec entity "lightningd:invoice:amount_msat".toList none with
  | .error fault => .error fault
  | .ok ec =>
      match components.jsonGetMember "lightningd:invoice:amount_msat".toList with
      | none => .error .assertion
      | some amountMsat =>
          ecsAdvanceDone systems
            (ecSetComponent ec entity "lightningd:amount".toList (some amountMsat)) entity

/-- The error object of `fail_invoice_amount_and_amount`. -/
def amountAndAmountText : Text :=
  let js := jsonOutStart jsonOutNew none '{'
  let js := jsonAddErrcode js (some "code".toList) jsonrpc2InvalidParams
  let js := jsonAddString js (some "message".toList) "msatoshi parameter unnecessary".toList
  (jsonOutEnd js '}').outbuf

def failInvoiceAmountAndAmount (ec : Ec) (entity : UInt32) : Except Fault Outcome :=
  match ecSetComponentDatum ec entity "lightningd:error".toList (some amountAndAmountText) with
  | .error fault => .error fault
  | .ok ec =>
      match ecSetComponentDatum ec entity "lightningd:systems".toList none with
      | .error fault => .error fault
      | .ok ec => .ok (ecsDone ec)

/-! ## Default settings -/

def defaultRiskfactor : Text := "10".toList

def defaultMaxfeepercent : Text := "0.5".toList

def defaultRetryFor : Text := "60".toList

def defaultExemptfee : Text := "\"5000msat\"".toList

/-- `system_defaulter_init`: `default_maxdelay`, from the `max-locktime-blocks` that
    `listconfigs` reports. -/
def systemDefaulterInit (maxLocktimeBlocks : Json) : Option Text :=
  some maxLocktimeBlocks.jsonStrdup

def defaulterRiskfactor (systems : SystemMap) (ec : Ec) (entity : UInt32) : Except Fault Outcome :=
  setDatumAndAdvance systems ec entity "lightningd:riskfactor".toList (some defaultRiskfactor)

def defaulterMaxfeepercent (systems : SystemMap) (ec : Ec) (entity : UInt32) :
    Except Fault Outcome :=
  setDatumAndAdvance systems ec entity "lightningd:maxfeepercent".toList
    (some defaultMaxfeepercent)

def defaulterRetryFor (systems : SystemMap) (ec : Ec) (entity : UInt32) : Except Fault Outcome :=
  setDatumAndAdvance systems ec entity "lightningd:retry_for".toList (some defaultRetryFor)

def defaulterExemptfee (systems : SystemMap) (ec : Ec) (entity : UInt32) : Except Fault Outcome :=
  setDatumAndAdvance systems ec entity "lightningd:exemptfee".toList (some defaultExemptfee)

/-- `defaulter_maxdelay`: the setting has to be known by now. -/
def defaulterMaxdelay (systems : SystemMap) (defaultMaxdelay : Option Text) (ec : Ec)
    (entity : UInt32) : Except Fault Outcome :=
  match defaultMaxdelay with
  | none => .error .assertion
  | some maxdelay =>
      setDatumAndAdvance systems ec entity "lightningd:maxdelay".toList (some maxdelay)

/-- What the functions read besides their arguments: the systems registered with
    ECSYS, the setting read at startup and the random bytes. -/
structure Surroundings where
  systems : SystemMap
  defaultMaxdelay : Option Text
  nonce : Nonce

/-- The call through the function pointer. -/
def EcsSystemFunction.call (env : Surroundings) (ec : Ec) (entity : UInt32) (eo : Json) :
    EcsSystemFunction → Except Fault Outcome
  | .generateNonce => Payz.generateNonce env.systems env.nonce ec entity
  | .parseInvoice => Payz.parseInvoice ec entity eo
  | .promoteInvoiceType => Payz.promoteInvoiceType env.systems ec entity eo
  | .invoiceAmountMsat => Payz.invoiceAmountMsat env.systems ec entity eo
  | .failInvoiceAmountAndAmount => Payz.failInvoiceAmountAndAmount ec entity
  | .defaulterRiskfactor => Payz.defaulterRiskfactor env.systems ec entity
  | .defaulterMaxfeepercent => Payz.defaulterMaxfeepercent env.systems ec entity
  | .defaulterRetryFor => Payz.defaulterRetryFor env.systems ec entity
  | .defaulterMaxdelay => Payz.defaulterMaxdelay env.systems env.defaultMaxdelay ec entity
  | .defaulterExemptfee => Payz.defaulterExemptfee env.systems ec entity

/-! ## The trigger -/

/-- The checks of `ecs_system_notify` before the call: the function, the entity and the
    object it is called with. -/
def ecsSystemLookup (ecs : Registry) (params : Json) :
    Option (EcsSystemFunction × UInt32 × Json) :=
  match params.jsonGetMember "system".toList with
  | none => none
  | some system =>
      match ecs.systemFuncs[system.jsonStrdup]? with
      | none => none
      | some wrapper =>
          match params.jsonGetMember "entity".toList with
          | none => none
          | some entity =>
              match (entity.jsonGetMember "entity".toList).bind Json.jsonToU32 with
              | none => none
              | some eid =>
                  if wrapper.required.all fun component =>
                      (entity.jsonGetMember component).isSome then
                    some (wrapper.func, eid, entity)
                  else none

def ecsSystemNotify (ecs : Registry) (defaultMaxdelay : Option Text) (nonce : Nonce) (ec : Ec)
    (params : Json) : Except Fault Outcome :=
  match ecsSystemLookup ecs params with
  | none => .ok (ecsDone ec)
  | some (func, eid, entity) => func.call ⟨ecs.systems, defaultMaxdelay, nonce⟩ ec eid entity

end Payz
