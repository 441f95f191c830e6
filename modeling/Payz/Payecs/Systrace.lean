import Payz.Payecs.Code

/-! # The trace of the systems

`payecs_systrace_add` and `payecs_systrace` of `plugins/payz/payecs_code.c`.  Each
notification that comes in is kept as the text of a JSON object, the most recent ones
only; `payecs_systrace` prints those of one entity.
-/

namespace Payz

open Layout

/-- The time of the clock, as `gmtime` breaks it up. -/
structure Timeabs where
  year : Nat
  month : Nat
  day : Nat
  hour : Nat
  minute : Nat
  second : Nat
  msec : Nat
  /-- Other years do not fit the buffer of `format_time`. -/
  fourDigits : 1000 ≤ year ∧ year < 10000

/-- A number with leading zeroes. -/
def padded (width n : Nat) : Text :=
  List.replicate (width - (formatU n).length) '0' ++ formatU n

def formatTime (time : Timeabs) : Text :=
  formatU time.year ++ '-' :: (padded 2 time.month ++ '-' :: (padded 2 time.day ++
    'T' :: (padded 2 time.hour ++ ':' :: (padded 2 time.minute ++ ':' :: (padded 2 time.second ++
      '.' :: (padded 3 time.msec ++ ['Z']))))))

structure PayecsSystraceEntry where
  entity : UInt32
  json : Text
  deriving Repr, DecidableEq

/-- `payecs_systraces` and `payecs_systraces_remaining`. -/
structure PayecsSystraces where
  remaining : Nat
  entries : List PayecsSystraceEntry
  deriving Repr, DecidableEq

/-- No system was triggered yet. -/
def PayecsSystraces.init : PayecsSystraces := ⟨100000, []⟩

def systraceText (time : Timeabs) (system entity : Json) : Text :=
  "\x7b\"time\": \"".toList ++ (formatTime time ++ ("\", \"system\": ".toList ++
    (system.jsonTokFull ++ (", \"entity\": ".toList ++ (entity.jsonTokFull ++ "\x7d".toList)))))

def payecsSystraceAdd (traces : PayecsSystraces) (time : Timeabs) (params : Json) :
    PayecsSystraces :=
  match ((params.jsonGetMember "entity".toList).bind fun entity =>
      entity.jsonGetMember "entity".toList).bind Json.jsonToU32 with
  | none => traces
  | some entity =>
      let traces : PayecsSystraces :=
        if traces.remaining = 0 then ⟨1, traces.entries.drop 1⟩ else traces
      match params.jsonGetMember "system".toList, params.jsonGetMember "entity".toList with
      | some system, some entityObj =>
          ⟨traces.remaining - 1, traces.entries ++ [⟨entity, systraceText time system entityObj⟩]⟩
      | _, _ => traces

def jsonAddLiteral (out : JsonOut) (fieldname : Option Text) (literal : Text) : JsonOut :=
  let out := jsonOutMemberDirect out fieldname
  { out with outbuf := out.outbuf ++ literal }

/-- The `result` of `payecs_systrace`. -/
def payecsSystraceText (traces : PayecsSystraces) (entity : UInt32) : Text :=
  let out := jsonAddU32 (jsonOutStart jsonOutNew none '{') (some "entity".toList) entity
  let out := jsonOutStart out (some "trace".toList) '['
  let out := traces.entries.foldl
    (fun out entry => if entry.entity = entity then jsonAddLiteral out none entry.json else out) out
  (jsonOutEnd (jsonOutEnd out ']') '}').outbuf

def payecsSystraceParams : List Param := [paramNumber "entity" true]

def payecsSystraceArgs (params : Json) : Except CommandFail UInt32 :=
  (param payecsSystraceParams params).map fun values =>
    ((values.getD 0 none).bind Json.jsonToNumber).getD 0

def payecsSystrace (traces : PayecsSystraces) (params : Json) : Except CommandFail Text :=
  (payecsSystraceArgs params).map (payecsSystraceText traces)

/-! ## What is printed -/

def systraceObject (time : Timeabs) (system entity : Json) : Json :=
  .object (systraceText time system entity)
    [("time".toList, .string (formatTime time)), ("system".toList, system),
      ("entity".toList, entity)]

theorem stringText_formatU (n : Nat) : StringText (formatU n) := by
  refine .of_forall fun c member => ?_
  have range := toNat_of_isDigit (isDigit_of_mem_formatU member)
  refine ⟨?_, ?_, ?_⟩ <;> rintro rfl <;> exact absurd range (by decide)

theorem stringText_padded (width n : Nat) : StringText (padded width n) := by
  refine stringText_append (.of_plain (List.all_eq_true.mpr fun c member => ?_))
    (stringText_formatU n)
  rw [List.eq_of_mem_replicate member]
  rfl

theorem stringText_formatTime (time : Timeabs) : StringText (formatTime time) := by
  have plain : ∀ d ∈ ['-', 'T', ':', '.'], d ≠ '"' ∧ d ≠ '\\' ∧ d ≠ '\x00' :=
    forall_mem_of_all rfl
  have part : ∀ (mark : Char), mark ∈ ['-', 'T', ':', '.'] → ∀ (width n : Nat) {rest : Text},
      StringText rest → StringText (mark :: (padded width n ++ rest)) := by
    intro mark member width n rest text
    obtain ⟨quote, backslash, nul⟩ := plain mark member
    exact .plain quote backslash nul (stringText_append (stringText_padded width n) text)
  unfold formatTime
  refine stringText_append (stringText_formatU _) ?_
  refine part '-' (by simp) 2 _ (part '-' (by simp) 2 _ ?_)
  refine part 'T' (by simp) 2 _ (part ':' (by simp) 2 _ ?_)
  refine part ':' (by simp) 2 _ (part '.' (by simp) 3 _ ?_)
  exact .of_plain rfl

theorem systraceObject_wellFormed (time : Timeabs) {system entity : Json}
    (systemOk : system.WellFormed) (entityOk : entity.WellFormed) :
    (systraceObject time system entity).WellFormed := by
  have blank : Blanks [' '] := List.forall_mem_singleton.mpr (.inl rfl)
  have member : ∀ (key : Text) (j : Json),
      MemberText (key, j) ('"' :: (key ++ '"' :: ':' :: ' ' :: j.jsonTokFull)) :=
    fun key j => ⟨[], [' '], Blanks.nil, blank, rfl⟩
  obtain ⟨body, sep, text⟩ : ∃ body, CommaSep MemberText
      [("time".toList, .string (formatTime time)), ("system".toList, system),
        ("entity".toList, entity)] body ∧
      systraceText time system entity = '{' :: (body ++ ['}']) := by
    refine ⟨_, .cons Blanks.nil (member _ _) Blanks.nil (List.cons_ne_nil _ _)
      (.cons blank (member _ _) Blanks.nil (List.cons_ne_nil _ _)
        (.single blank (member _ _) Blanks.nil)), ?_⟩
    have text : systraceText time system entity =
        ('{' :: '"' :: ("time".toList ++ ['"', ':', ' ', '"'])) ++ (formatTime time ++
          (('"' :: ',' :: ' ' :: '"' :: ("system".toList ++ ['"', ':', ' '])) ++
            (system.jsonTokFull ++ ((',' :: ' ' :: '"' :: ("entity".toList ++ ['"', ':', ' '])) ++
              (entity.jsonTokFull ++ ['}']))))) := rfl
    rw [text]
    simp only [Json.jsonTokFull, List.append_assoc, List.cons_append, List.nil_append,
      List.append_nil]
  rw [systraceObject, text]
  refine .object ?_ ?_ sep
  · simp only [List.forall_mem_cons]
    exact ⟨.of_plain rfl, .of_plain rfl, .of_plain rfl, by simp⟩
  · simp only [List.forall_mem_cons]
    exact ⟨.string (stringText_formatTime time), systemOk, entityOk, by simp⟩

/-- The trace as a datum: its entries stand for these data. -/
def PayecsSystraces.Prints (traces : PayecsSystraces) (data : List (UInt32 × Json)) : Prop :=
  traces.entries = data.map fun d => ⟨d.1, d.2.jsonTokFull⟩

/-- What is printed are the entries of the entity, in their order. -/
theorem PayecsSystraces.Prints.text {traces : PayecsSystraces} {data : List (UInt32 × Json)}
    (prints : traces.Prints data) (entity : UInt32) :
    payecsSystraceText traces entity = (Json.tight [
      ("entity".toList, .primitive (formatU entity.toNat)),
      ("trace".toList, .tightArray ((data.filter fun d => d.1 = entity).map Prod.snd))]).jsonTokFull := by
  have loop : ∀ (data : List (UInt32 × Json)) {out : JsonOut} {before : Text} {elems : List Json},
      out.WritingArray before elems →
      ((data.map fun d => (⟨d.1, d.2.jsonTokFull⟩ : PayecsSystraceEntry)).foldl (fun out entry =>
        if entry.entity = entity then jsonAddLiteral out none entry.json else out) out).WritingArray
          before (elems ++ (data.filter fun d => d.1 = entity).map Prod.snd) := by
    intro data
    induction data with
    | nil => exact fun writing => by simpa using writing
    | cons d data ih =>
        intro out before elems writing
        by_cases mine : d.1 = entity
        · have here : jsonAddLiteral out none d.2.jsonTokFull = jsonAddTok out none d.2 := rfl
          simpa [mine, here] using ih (writing.addTok d.2)
        · simpa [mine] using ih writing
  have first := JsonOut.Writing.start_root.addTok "entity".toList
    (.primitive (formatU entity.toNat))
  have whole := (JsonOut.WritingArray.member first
    (loop data (JsonOut.WritingArray.start "trace".toList))).finish
  rw [payecsSystraceText, prints]
  exact whole

/-- A notification with these parts is added at the end, as long as there is room. -/
theorem PayecsSystraces.Prints.add {traces : PayecsSystraces} {data : List (UInt32 × Json)}
    (prints : traces.Prints data) (room : 0 < traces.remaining) (time : Timeabs)
    {params system entityObj : Json} {entity : UInt32}
    (system' : params.jsonGetMember "system".toList = some system)
    (entity' : params.jsonGetMember "entity".toList = some entityObj)
    (id : (entityObj.jsonGetMember "entity".toList).bind Json.jsonToU32 = some entity) :
    (payecsSystraceAdd traces time params).Prints
        (data ++ [(entity, systraceObject time system entityObj)]) ∧
      (payecsSystraceAdd traces time params).remaining = traces.remaining - 1 := by
  have left : ¬ traces.remaining = 0 := by omega
  simp only [payecsSystraceAdd, system', entity', Option.bind_some, id, left, if_false]
  refine ⟨?_, trivial⟩
  rw [Prints, prints, List.map_append]
  rfl

end Payz
