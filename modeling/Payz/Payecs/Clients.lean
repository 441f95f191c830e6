import Payz.Ecs.Setsystems
import Payz.Lib.Runs
import Payz.Payecs.Expected
import Payz.Payecs.Writes

/-! # Clients that read, compute and write

Any number of clients call `payecs_getcomponents` and `payecs_setcomponents`, each call
being one step.  A client that passes what it has read as `expected` writes only if
the table still agrees with what it read.
-/

namespace Payz

open Runs

/-- A call of one of the two commands, with its parameters. -/
inductive PayecsCall where
  | getcomponents (params : Json)
  | setcomponents (params : Json)

structure Request where
  client : Nat
  call : PayecsCall

def serve (ec : Ec) : PayecsCall → Except Fault (Ec × Reply)
  | .getcomponents params => .ok (ec, payecsGetcomponents ec params)
  | .setcomponents params => payecsSetcomponents ec params

def Serves (ec : Ec) (request : Request) (ec' : Ec) : Prop :=
  ∃ reply, serve ec request.call = .ok (ec', reply)

/-- A JSON datum whose objects repeat no key. -/
structure Json.Data (j : Json) : Prop where
  wellFormed : j.WellFormed
  keysDistinct : j.KeysDistinct

/-- All values a specification lists satisfy `P`. -/
def PayecsWritespec.Values (P : Json → Prop) (w : PayecsWritespec) : Prop :=
  ∀ (component : Text) (value : Json), w.components[component]? = some value → P value

/-- All component values a call would write are such data. -/
def PayecsCall.WritesData : PayecsCall → Prop
  | .getcomponents _ => True
  | .setcomponents params => ∀ writes expected,
      payecsSetcomponentsArgs params = .ok (writes, expected) →
        ∀ w ∈ writes, w.Values Json.Data

theorem Json.Data.null : nullDatum.Data := ⟨.primitive (.inl rfl), .primitive⟩

/-! ## What a call keeps -/

theorem all_of_written {P : Json → Prop} {i : Nat} {ec ec' : Ec} {w : PayecsWritespec}
    (all : ec.All P) (values : w.Values P) (cells : ec'.cell = w.written i ec) : ec'.All P := by
  intro entity component datum found
  rw [cells, PayecsWritespec.written] at found
  by_cases mine : w.entity = entity
  · rw [if_pos mine] at found
    cases listed : w.components[component]? with
    | some value =>
        rw [listed, Option.elim_some] at found
        obtain ⟨same, -⟩ := Option.filter_eq_some_iff.mp found
        cases same
        exact values component datum listed
    | none =>
        rw [listed, Option.elim_none] at found
        split_ifs at found
        exact all found
  · rw [if_neg mine] at found
    exact all found

theorem all_of_writes {P : Json → Prop} {i : Nat} {ec ec' : Ec} {writes : List PayecsWritespec}
    (consistent : ec.Consistent) (all : ec.All P) (values : ∀ w ∈ writes, w.Values P)
    (run : payecsSetcomponentsWrites i ec writes = .ok ec') : ec'.All P := by
  induction writes generalizing i ec with
  | nil =>
      cases run
      exact all
  | cons w writes ih =>
      rw [List.forall_mem_cons] at values
      obtain ⟨after, -, kept, cells, tail⟩ := payecsSetcomponentsWrites_cons consistent run
      exact ih kept (all_of_written all values.1 cells) values.2 tail

/-- What may be the name of a component in a specification: it can be written as a key,
    and is none of the two words that mean something else there. -/
structure ComponentName (component : Text) : Prop where
  plain : jsonEscapeNeeded component = false
  notEntity : component ≠ "entity".toList
  notExact : component ≠ "exact".toList

/-- A specification is refused for a key that cannot be written. -/
theorem writespecMember_plain {members : List (Text × Json)} {draft spec : WritespecDraft}
    (read : members.foldlM writespecMember draft = some spec) :
    ∀ m ∈ members, m.1 ≠ "entity".toList → m.1 ≠ "exact".toList → jsonEscapeNeeded m.1 = false := by
  induction members generalizing draft with
  | nil => simp
  | cons m members ih =>
      simp only [List.foldlM_cons, Option.bind_eq_bind, Option.bind_eq_some_iff] at read
      obtain ⟨next, first, rest⟩ := read
      refine List.forall_mem_cons.mpr ⟨fun notEntity notExact => ?_, ih rest⟩
      rw [writespecMember, if_neg notEntity, if_neg notExact] at first
      split_ifs at first with special
      exact Bool.eq_false_iff.mpr special

theorem jsonToPayecsWritespec_member {tok : Json} {spec : PayecsWritespec}
    (read : jsonToPayecsWritespec tok = some spec) {component : Text} {value : Json}
    (listed : spec.components[component]? = some value) :
    (component, value) ∈ tok.members ∧ ComponentName component := by
  have among := PayecsWritespec.mem_listed read listed
  cases tok with
  | primitive | string | array => simp [jsonToPayecsWritespec] at read
  | object text members =>
      obtain ⟨member, name⟩ := List.mem_filter.mp among
      simp only [isComponent, ne_eq, Bool.and_eq_true, bne_iff_ne] at name
      simp only [jsonToPayecsWritespec] at read
      split at read
      · next run =>
          exact ⟨member, writespecMember_plain run _ member name.1 name.2, name.1, name.2⟩
      · cases read

theorem mem_of_jsonToPayecsWritespecs {tok : Json} {specs : List PayecsWritespec}
    (read : jsonToPayecsWritespecs tok = some specs) {spec : PayecsWritespec}
    (member : spec ∈ specs) :
    jsonToPayecsWritespec tok = some spec ∨
      ∃ text elems elem, tok = .array text elems ∧ elem ∈ elems ∧
        jsonToPayecsWritespec elem = some spec := by
  cases tok with
  | array text elems =>
      simp only [jsonToPayecsWritespecs] at read
      obtain ⟨elem, there, single⟩ := mem_of_mapM_eq_some read member
      exact .inr ⟨text, elems, elem, rfl, there, single⟩
  | primitive | string | object =>
      simp only [jsonToPayecsWritespecs] at read
      obtain ⟨only, single, rfl⟩ := Option.map_eq_some_iff.mp read
      cases List.mem_singleton.mp member
      exact .inl single

theorem mem_of_payecsSetcomponentsArgs {params : Json} {writes expected : List PayecsWritespec}
    (args : payecsSetcomponentsArgs params = .ok (writes, expected)) {w : PayecsWritespec}
    (member : w ∈ writes) :
    ∃ values tok specs, param payecsSetcomponentsParams params = .ok values ∧
      some tok ∈ values ∧ jsonToPayecsWritespecs tok = some specs ∧ w ∈ specs := by
  obtain ⟨values, parsed, same⟩ := eq_of_map_eq_ok args
  cases same
  cases first : values[0]? with
  | none => simp [first] at member
  | some value =>
      cases value with
      | none => simp [first] at member
      | some tok =>
          cases read : jsonToPayecsWritespecs tok with
          | none => simp [first, read] at member
          | some specs =>
              exact ⟨values, tok, specs, parsed, List.mem_of_getElem? first, read,
                by simpa [first, read] using member⟩

theorem payecsSetcomponentsArgs_values {params : Json} (wellFormed : params.WellFormed)
    {writes expected : List PayecsWritespec}
    (args : payecsSetcomponentsArgs params = .ok (writes, expected)) :
    ∀ w ∈ writes, w.Values Json.WellFormed := by
  intro w member component value listed
  obtain ⟨values, tok, specs, parsed, there, read, among⟩ := mem_of_payecsSetcomponentsArgs args member
  have request := param_wellFormed wellFormed parsed there
  rcases mem_of_jsonToPayecsWritespecs read among with single | ⟨text, elems, elem, rfl, inside, single⟩
  · exact (members_wellFormed request _ (jsonToPayecsWritespec_member single listed).1).2
  · cases request with
    | array data _ =>
        exact (members_wellFormed (data elem inside) _ (jsonToPayecsWritespec_member single listed).1).2

theorem payecsSetcomponentsArgs_names {params : Json} {writes expected : List PayecsWritespec}
    (args : payecsSetcomponentsArgs params = .ok (writes, expected)) {w : PayecsWritespec}
    (member : w ∈ writes) {component : Text} {value : Json}
    (listed : w.components[component]? = some value) : ComponentName component := by
  obtain ⟨values, tok, specs, -, -, read, among⟩ := mem_of_payecsSetcomponentsArgs args member
  rcases mem_of_jsonToPayecsWritespecs read among with single | ⟨-, -, elem, -, -, single⟩
  · exact (jsonToPayecsWritespec_member single listed).2
  · exact (jsonToPayecsWritespec_member single listed).2

theorem payecsSetcomponentsRun_cases {ec ec' : Ec} {reply : Reply}
    {writes expected : List PayecsWritespec}
    (ran : payecsSetcomponentsRun ec writes expected = .ok (ec', reply)) :
    (payecsSetcomponentsExpected ec expected = .ok false ∧ ec' = ec ∧
      reply = .fail payecsSetcomponentsUnexpectedComponents
        "Validation of expected failed.".toList) ∨
    (payecsSetcomponentsExpected ec expected = .ok true ∧
      payecsSetcomponentsWrites 0 ec writes = .ok ec' ∧ reply = .success []) := by
  unfold payecsSetcomponentsRun at ran
  cases validated : payecsSetcomponentsExpected ec expected with
  | error fault => simp [validated] at ran
  | ok holds =>
      cases holds with
      | false =>
          simp only [validated, Except.ok.injEq, Prod.mk.injEq] at ran
          exact .inl ⟨rfl, ran.1.symm, ran.2.symm⟩
      | true =>
          simp only [validated] at ran
          obtain ⟨after, run, same⟩ := eq_of_map_eq_ok ran
          cases same
          exact .inr ⟨rfl, run, rfl⟩

theorem serves_keeps (ec : Ec) (request : Request) (ec' : Ec) (data : request.call.WritesData)
    (kept : ec.Consistent ∧ ec.All Json.Data) (step : Serves ec request ec') :
    ec'.Consistent ∧ ec'.All Json.Data := by
  obtain ⟨reply, served⟩ := step
  cases call : request.call with
  | getcomponents params =>
      rw [call] at served
      cases served
      exact kept
  | setcomponents params =>
      rw [call] at served data
      simp only [serve, payecsSetcomponents] at served
      cases args : payecsSetcomponentsArgs params with
      | error fail =>
          rw [args] at served
          cases served
          exact kept
      | ok specs =>
          rw [args] at served
          rcases payecsSetcomponentsRun_cases served with ⟨-, rfl, -⟩ | ⟨-, run, -⟩
          · exact kept
          · exact ⟨consistent_of_writes kept.1 run,
              all_of_writes kept.1 kept.2 (data specs.1 specs.2 args) run⟩

/-! ## Guarded writes -/

/-- A call of `payecs_setcomponents` without `exact` that lists as `expected`, for these
    components of this entity, the very texts of a reply. -/
structure GuardedWrite (params : Json) (entity : UInt32) (names : List Text)
    (result : List (Text × Json)) where
  writes : List PayecsWritespec
  expect1 : PayecsWritespec
  args : payecsSetcomponentsArgs params = .ok (writes, [expect1])
  notExact : ∀ w ∈ expect1 :: writes, w.exact = false
  sameEntity : expect1.entity = entity
  lists : ∀ component, component ∈ expect1.components ↔ component ∈ names
  wellFormed : expect1.Values Json.WellFormed
  texts : ∀ (component : Text) value datum, expect1.components[component]? = some value →
    (component, datum) ∈ result → value.jsonTokFull = datum.jsonTokFull

theorem writes_ok_of_not_exact {ec : Ec} (consistent : ec.Consistent)
    {writes : List PayecsWritespec} (notExact : ∀ w ∈ writes, w.exact = false) :
    ∃ ec', payecsSetcomponentsWrites 0 ec writes = .ok ec' := by
  refine writes_ok_of_inBounds consistent ?_
  rintro first w second before rfl - exact
  rw [notExact w (by simp)] at exact
  cases exact

/-- What the client lists is, component by component, the datum it read. -/
theorem GuardedWrite.value_eq {params : Json} {entity : UInt32} {names : List Text} {ec : Ec}
    (guarded : GuardedWrite params entity names (jsonSpliceEntityComponents ec entity names))
    (data : ec.All Json.Data) {component : Text} {value : Json}
    (listed : guarded.expect1.components[component]? = some value) :
    value = ec.current entity component := by
  have present : component ∈ guarded.expect1.components :=
    Std.ExtTreeMap.mem_iff_isSome_getElem?.mpr (by simp [listed])
  have named : component ∈ names := (guarded.lists component).mp present
  have read : (component, ec.current entity component) ∈
      jsonSpliceEntityComponents ec entity names := by
    refine List.mem_cons_of_mem _ (List.mem_map.mpr ⟨component, named, ?_⟩)
    rw [ecGetComponent_eq]
  exact (guarded.wellFormed component value listed).eq_of_text
    (data.current Json.Data.null entity component).wellFormed
    (guarded.texts component value _ listed read)

theorem GuardedWrite.validate_iff {params : Json} {entity : UInt32} {names : List Text}
    {ec now : Ec}
    (guarded : GuardedWrite params entity names (jsonSpliceEntityComponents ec entity names))
    (data : ec.All Json.Data) (dataNow : now.All Json.Data) :
    payecsSetcomponentsValidate now guarded.expect1 = true ↔
      ∀ component ∈ names, Json.Same (ec.current entity component) (now.current entity component) := by
  have compare : ∀ component, Json.jsonEqual (ec.current entity component)
      (now.current entity component) = true ↔
        Json.Same (ec.current entity component) (now.current entity component) := fun component =>
    Json.jsonEqual_iff_same (data.current Json.Data.null entity component).keysDistinct
      (dataNow.current Json.Data.null entity component).keysDistinct
  rw [payecsSetcomponentsValidate_iff, guarded.sameEntity]
  constructor
  · intro equal component named
    obtain ⟨value, listed⟩ := Option.isSome_iff_exists.mp
      (Std.ExtTreeMap.mem_iff_isSome_getElem?.mp ((guarded.lists component).mpr named))
    rw [← compare, ← guarded.value_eq data listed]
    exact equal component value listed
  · intro same component value listed
    have present : component ∈ guarded.expect1.components :=
      Std.ExtTreeMap.mem_iff_isSome_getElem?.mpr (by simp [listed])
    rw [guarded.value_eq data listed, compare]
    exact same component ((guarded.lists component).mp present)

/-- No update is lost: a guarded write succeeds exactly if the table agrees with what
    the client read, and otherwise fails and changes nothing.  The calls before the
    reading and between the two may be any, by any clients. -/
theorem no_lost_update {start ecRead ecWrite : Ec} {before between : List Request}
    {reader : Nat} {readParams writeParams : Json} {entity : UInt32} {names : List Text}
    {result : List (Text × Json)} (consistent : start.Consistent) (data : start.All Json.Data)
    (ran : Run Serves start before ecRead)
    (reading : serve ecRead (Request.mk reader (.getcomponents readParams)).call =
      .ok (ecRead, .success result))
    (asked : payecsGetcomponentsArgs readParams = .ok (entity, names))
    (ranOn : Run Serves ecRead between ecWrite)
    (writesData : ∀ request ∈ before ++ between, request.call.WritesData)
    (guarded : GuardedWrite writeParams entity names result) :
    ∃ ec reply, serve ecWrite (Request.mk reader (.setcomponents writeParams)).call =
        .ok (ec, reply) ∧
      (reply = .success [] ↔ ∀ component ∈ names,
        Json.Same (ecRead.current entity component) (ecWrite.current entity component)) ∧
      (reply ≠ .success [] → ec = ecWrite ∧
        reply = .fail 2244 "Validation of expected failed.".toList) := by
  have keptRead := ran.keeps serves_keeps
    (fun request member => writesData request (List.mem_append_left _ member)) ⟨consistent, data⟩
  have keptWrite := ranOn.keeps serves_keeps
    (fun request member => writesData request (List.mem_append_right _ member)) keptRead
  have shown : result = jsonSpliceEntityComponents ecRead entity names := by
    simpa [serve, payecsGetcomponents, asked, eq_comm] using reading
  subst shown
  have notExact := List.forall_mem_cons.mp guarded.notExact
  have validated : payecsSetcomponentsExpected ecWrite [guarded.expect1] =
      .ok (payecsSetcomponentsValidate ecWrite guarded.expect1) := by
    cases holds : payecsSetcomponentsValidate ecWrite guarded.expect1 <;>
      simp [payecsSetcomponentsExpected, payecsSetcomponentsExpect1, holds, notExact.1]
  have compared := guarded.validate_iff keptRead.2 keptWrite.2
  simp only [serve, payecsSetcomponents, guarded.args, payecsSetcomponentsRun, validated]
  cases holds : payecsSetcomponentsValidate ecWrite guarded.expect1 with
  | false =>
      rw [holds] at compared
      refine ⟨ecWrite, _, rfl, ?_, fun _ => ⟨rfl, rfl⟩⟩
      rw [← compared]
      simp
  | true =>
      rw [holds] at compared
      obtain ⟨after, written⟩ := writes_ok_of_not_exact keptWrite.1 notExact.2
      refine ⟨after, .success [], by rw [written]; rfl, ?_, fun failed => absurd rfl failed⟩
      rw [← compared]
      simp

/-- Parameters that write one number to a component of entity 1. -/
def writeOne (component value : String) : Json :=
  .tight [("writes".toList, .tight [("entity".toList, .primitive "1".toList),
    (component.toList, .primitive value.toList)])]

/-- One client writes and reads `a`, another writes `b`, the first writes again. -/
theorem no_lost_update_two_clients :
    ∃ ec reply,
      serve (ecAfter [⟨1, "a".toList, some (.primitive "1".toList)⟩,
          ⟨1, "b".toList, some (.primitive "2".toList)⟩])
        (.setcomponents (.tight [("writes".toList, .tight [("entity".toList, .primitive "1".toList),
            ("a".toList, .primitive "3".toList)]),
          ("expected".toList, .tight [("entity".toList, .primitive "1".toList),
            ("a".toList, .primitive "1".toList)])])) = .ok (ec, reply) ∧
      (reply = .success [] ↔ ∀ component ∈ ["a".toList],
        Json.Same ((ecAfter [⟨1, "a".toList, some (.primitive "1".toList)⟩]).current 1 component)
          ((ecAfter [⟨1, "a".toList, some (.primitive "1".toList)⟩,
            ⟨1, "b".toList, some (.primitive "2".toList)⟩]).current 1 component)) ∧
      (reply ≠ .success [] →
        ec = ecAfter [⟨1, "a".toList, some (.primitive "1".toList)⟩,
            ⟨1, "b".toList, some (.primitive "2".toList)⟩] ∧
          reply = .fail 2244 "Validation of expected failed.".toList) := by
  have number : ∀ c : Char, c.isDigit = true → (Json.primitive [c]).WellFormed := fun c digit =>
    .primitive (.inr (.inr (.inr ⟨c, [], rfl, .inr digit, by simp⟩)))
  have one : ∀ (name : Text) (c : Char), c.isDigit = true →
      PayecsWritespec.Values Json.Data
        ⟨1, false, (∅ : Std.ExtTreeMap Text Json).insertIfNew name (.primitive [c]), 1⟩ := by
    intro name c digit component value listed
    rw [Std.ExtTreeMap.getElem?_insertIfNew] at listed
    split_ifs at listed
    · cases listed
      exact ⟨number c digit, .primitive⟩
    · simp at listed
  have data : ∀ params (name : Text) (c : Char), c.isDigit = true →
      payecsSetcomponentsArgs params = .ok ([⟨1, false,
        (∅ : Std.ExtTreeMap Text Json).insertIfNew name (.primitive [c]), 1⟩], []) →
      (PayecsCall.setcomponents params).WritesData := by
    intro params name c digit args writes expected same
    rw [args] at same
    cases same
    intro w member
    cases List.mem_singleton.mp member
    exact one name c digit
  refine @no_lost_update ecNew (ecAfter [⟨1, "a".toList, some (.primitive "1".toList)⟩]) _
    [⟨1, .setcomponents (writeOne "a" "1")⟩] [⟨2, .setcomponents (writeOne "b" "2")⟩] 1
    (.tight [("entity".toList, .primitive "1".toList), ("components".toList, .string "a".toList)])
    _ 1 ["a".toList]
    [("entity".toList, .primitive "1".toList), ("a".toList, .primitive "1".toList)]
    Ec.consistent_ecNew (Ec.all_ecNew _) (.cons ⟨.success [], rfl⟩ .nil) rfl rfl
    (.cons ⟨.success [], rfl⟩ .nil) ?_ ?_
  · intro request member
    rcases List.mem_cons.mp member with rfl | later
    · exact data _ "a".toList '1' (by decide) rfl
    · cases List.mem_singleton.mp later
      exact data _ "b".toList '2' (by decide) rfl
  · refine ⟨[⟨1, false, (∅ : Std.ExtTreeMap Text Json).insertIfNew "a".toList
        (.primitive "3".toList), 1⟩], ⟨1, false, (∅ : Std.ExtTreeMap Text Json).insertIfNew "a".toList
        (.primitive "1".toList), 1⟩, rfl, ?_, rfl, ?_, ?_, ?_⟩
    · simp
    · intro component
      simp only [Std.ExtTreeMap.mem_insertIfNew, Std.LawfulEqOrd.compare_eq_iff_eq,
        Std.ExtTreeMap.not_mem_empty, or_false, List.mem_singleton]
      exact eq_comm
    · exact fun component value listed => (one "a".toList '1' (by decide) _ _ listed).wellFormed
    · intro component value datum listed read
      rw [Std.ExtTreeMap.getElem?_insertIfNew] at listed
      split_ifs at listed with here
      · cases listed
        have name : "a".toList = component := by simpa using here.1
        subst name
        rcases List.mem_cons.mp read with bad | last
        · have keys : "a".toList = "entity".toList := congrArg Prod.fst bad
          exact absurd keys (by decide)
        · cases List.mem_singleton.mp last
          rfl
      · simp at listed

end Payz
