import Payz.Json.Equal
import Payz.Ecs.Ec
import Payz.Payecs.Params

/-! # Reading and writing the components of entities

`payecs_getcomponents` and `payecs_setcomponents` of `plugins/payz/payecs_data.c`.  The
latter compares the table with what the caller expects and then writes; its two
loops are `payecsSetcomponentsExpected` and `payecsSetcomponentsWrites`.
-/

namespace Payz

def payecsSetcomponentsUnexpectedComponents : Int := 2244

structure PayecsWritespec where
  entity : UInt32
  exact : Bool
  components : Std.ExtTreeMap Text Json
  numComponents : Nat

/-- A `payecs_writespec` while it is being filled in; `entity` is not set until the
    key is found. -/
structure WritespecDraft where
  entity : Option UInt32
  exact : Bool
  components : Std.ExtTreeMap Text Json
  numComponents : Nat

/-- One turn of the loop of `json_to_payecs_writespec`.  The counter goes up even
    when `strmap_add` finds the key taken and keeps the older value. -/
def writespecMember (spec : WritespecDraft) (m : Text × Json) : Option WritespecDraft :=
  if m.1 = "entity".toList then
    m.2.jsonToU32.map fun entity => { spec with entity := some entity }
  else if m.1 = "exact".toList then
    m.2.jsonToBool.map fun exact => { spec with exact := exact }
  else if jsonEscapeNeeded m.1 then none
  else
    some { spec with
      numComponents := spec.numComponents + 1
      components := spec.components.insertIfNew m.1 m.2 }

def jsonToPayecsWritespec : Json → Option PayecsWritespec
  | .object _ members =>
      match members.foldlM writespecMember ⟨none, false, ∅, 0⟩ with
      | some ⟨some entity, exact, components, numComponents⟩ =>
          some ⟨entity, exact, components, numComponents⟩
      | _ => none
  | _ => none

/-- What `param_array_of_payecs_writespec` reads: an array of specifications, or a
    single one. -/
def jsonToPayecsWritespecs : Json → Option (List PayecsWritespec)
  | .array _ elems => elems.mapM jsonToPayecsWritespec
  | tok => (jsonToPayecsWritespec tok).map fun spec => [spec]

/-- A parameter read by `param_array_of_payecs_writespec`. -/
def paramArrayOfPayecsWritespec (name : String) (required : Bool) : Param where
  name := name.toList
  required := required
  accepts tok := (jsonToPayecsWritespecs tok).isSome
  complaint := "should be an array of entity-component specifications.".toList

/-! ## The two loops -/

/-- `payecs_setcomponents_validate`, over all components: the iteration ends at the
    first that differs. -/
def payecsSetcomponentsValidate (ec : Ec) (expect1 : PayecsWritespec) : Bool :=
  expect1.components.toList.all fun m =>
    Json.jsonEqual m.2 (ecGetComponent ec expect1.entity m.1).2

/-- One turn of the validating loop. -/
def payecsSetcomponentsExpect1 (ec : Ec) (expect1 : PayecsWritespec) : Except Fault Bool :=
  if payecsSetcomponentsValidate ec expect1 then
    if expect1.exact then
      (ecGetComponents ec expect1.entity).map fun components =>
        (components.getD []).length == expect1.numComponents
    else .ok true
  else .ok false

/-- The validating loop. -/
def payecsSetcomponentsExpected (ec : Ec) : List PayecsWritespec → Except Fault Bool
  | [] => .ok true
  | expect1 :: expected =>
      match payecsSetcomponentsExpect1 ec expect1 with
      | .error fault => .error fault
      | .ok false => .ok false
      | .ok true => payecsSetcomponentsExpected ec expected

/-- The loop that clears an entity, as often as there are `components`.  It reads
    `components[i]` with the index `i` of the specification. -/
def payecsSetcomponentsClear (i : Nat) (entity : UInt32) (components : List Text) :
    Nat → Ec → Except Fault Ec
  | 0, ec => .ok ec
  | turns + 1, ec =>
      match components[i]? with
      | none => .error .outOfBounds
      | some component =>
          payecsSetcomponentsClear i entity components turns
            (ecSetComponent ec entity component none)

/-- `payecs_setcomponents_write`, over all components. -/
def payecsSetcomponentsWrite (ec : Ec) (write1 : PayecsWritespec) : Ec :=
  ec.setAll write1.entity write1.components.toList

/-- One turn of the writing loop. -/
def payecsSetcomponentsWrite1 (i : Nat) (ec : Ec) (write1 : PayecsWritespec) : Except Fault Ec :=
  if write1.exact then
    match ecGetComponents ec write1.entity with
    | .error fault => .error fault
    | .ok components =>
        (payecsSetcomponentsClear i write1.entity (components.getD []) (components.getD []).length
          ec).map fun ec => payecsSetcomponentsWrite ec write1
  else .ok (payecsSetcomponentsWrite ec write1)

/-- The writing loop, from index `i` on. -/
def payecsSetcomponentsWrites (i : Nat) (ec : Ec) : List PayecsWritespec → Except Fault Ec
  | [] => .ok ec
  | write1 :: writes =>
      match payecsSetcomponentsWrite1 i ec write1 with
      | .error fault => .error fault
      | .ok ec => payecsSetcomponentsWrites (i + 1) ec writes

/-! ## The commands -/

def payecsSetcomponentsParams : List Param :=
  [paramArrayOfPayecsWritespec "writes" true, paramArrayOfPayecsWritespec "expected" false]

/-- `payecs_setcomponents` once its parameters are parsed. -/
def payecsSetcomponentsRun (ec : Ec) (writes expected : List PayecsWritespec) :
    Except Fault (Ec × Reply) :=
  match payecsSetcomponentsExpected ec expected with
  | .error fault => .error fault
  | .ok false =>
      .ok (ec, .fail payecsSetcomponentsUnexpectedComponents
        "Validation of expected failed.".toList)
  | .ok true => (payecsSetcomponentsWrites 0 ec writes).map fun ec => (ec, .success [])

/-- The parameters of `payecs_setcomponents`: `writes` and `expected`, which is empty
    when it is left out. -/
def payecsSetcomponentsArgs (params : Json) :
    Except CommandFail (List PayecsWritespec × List PayecsWritespec) :=
  (param payecsSetcomponentsParams params).map fun values =>
    let specs := values.map fun value => (value.bind jsonToPayecsWritespecs).getD []
    (specs.getD 0 [], specs.getD 1 [])

def payecsSetcomponents (ec : Ec) (params : Json) : Except Fault (Ec × Reply) :=
  match payecsSetcomponentsArgs params with
  | .error fail => .ok (ec, .fail fail.1 fail.2)
  | .ok (writes, expected) => payecsSetcomponentsRun ec writes expected

/-- `json_splice_entity_components`, as the members it writes. -/
def jsonSpliceEntityComponents (ec : Ec) (entity : UInt32) (components : List Text) :
    List (Text × Json) :=
  ("entity".toList, .primitive (formatU entity.toNat)) ::
    components.map fun component => (component, (ecGetComponent ec entity component).2)

def payecsGetcomponentsParams : List Param :=
  [paramNumber "entity" true, paramArrayOfStrings "components" true]

/-- The parameters of `payecs_getcomponents`: `entity` and `components`. -/
def payecsGetcomponentsArgs (params : Json) : Except CommandFail (UInt32 × List Text) :=
  (param payecsGetcomponentsParams params).map fun values =>
    (((values.getD 0 none).bind Json.jsonToNumber).getD 0,
      ((values.getD 1 none).bind jsonToArrayOfStrings).getD [])

def payecsGetcomponents (ec : Ec) (params : Json) : Reply :=
  match payecsGetcomponentsArgs params with
  | .error fail => .fail fail.1 fail.2
  | .ok (entity, components) => .success (jsonSpliceEntityComponents ec entity components)

end Payz
