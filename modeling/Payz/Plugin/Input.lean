import Payz.Json.Channel
import Payz.Lib.Runs

/-! # What lightningd writes on the plugin's stdin

`ld_read_json`, `ld_read_json_one` and `ld_command_handle` in `plugins/libplugin.c`.  The build
does not define `DEVELOPER`.  Handlers are named here and called elsewhere.
-/

namespace Payz

open Layout

/-- `struct command`, without the plugin. -/
structure LdCommand where
  id : Option Nat
  methodname : Text
  deriving Repr, DecidableEq

/-- The tables of `struct plugin` that are searched for a name. -/
structure LdTables where
  notifSubs : List Text
  hookSubs : List Text
  commands : List Text

/-- The flags `manifested` and `initialized`. -/
structure LdStage where
  manifested : Bool
  initialized : Bool
  deriving Repr, DecidableEq

/-- Whose handler is called: one of libplugin's own, or the one at some place of a table. -/
inductive LdHandler where
  | getmanifest
  | init
  | notification (i : Nat)
  | hook (i : Nat)
  | command (i : Nat)
  deriving Repr, DecidableEq

/-- A handler as it is called. -/
structure LdCall where
  handler : LdHandler
  cmd : LdCommand
  params : Json
  deriving Repr, DecidableEq

/-- Why `plugin_err` is called. -/
inductive LdError where
  | parse (buffer : Text)
  | missing (toks : Json)
  | idNumber (idtok : Json)
  | notManifested (methodname : Text)
  | notInitialized (methodname : Text)
  | unregistered (methtok : Json)
  | unknown (methodname : Text)
  deriving Repr, DecidableEq

/-- The head of `ld_command_handle`: the command and its parameters. -/
def ldCommand (toks : Json) : Except LdError (LdCommand × Json × Json) :=
  match toks.jsonGetMember "method".toList, toks.jsonGetMember "params".toList with
  | some methtok, some paramstok =>
      match toks.jsonGetMember "id".toList with
      | none => .ok (⟨none, methtok.jsonStrdup⟩, methtok, paramstok)
      | some idtok =>
          match idtok.jsonToU64 with
          | none => .error (.idNumber idtok)
          | some id => .ok (⟨some id, methtok.jsonStrdup⟩, methtok, paramstok)
  | _, _ => .error (.missing toks)

/-- `ld_command_handle`: the handler it calls, and the flags behind the call. -/
def ldCommandHandle (tables : LdTables) (stage : LdStage) (toks : Json) :
    Except LdError (LdCall × LdStage) := do
  let (cmd, methtok, paramstok) ← ldCommand toks
  if stage.manifested = false then
    if cmd.methodname = "getmanifest".toList then
      .ok (⟨.getmanifest, cmd, paramstok⟩, { stage with manifested := true })
    else .error (.notManifested cmd.methodname)
  else if stage.initialized = false then
    if cmd.methodname = "init".toList then
      .ok (⟨.init, cmd, paramstok⟩, { stage with initialized := true })
    else .error (.notInitialized cmd.methodname)
  else if cmd.id = none then
    match tables.notifSubs.findIdx? (· = cmd.methodname) with
    | some i => .ok (⟨.notification i, cmd, paramstok⟩, stage)
    | none => .error (.unregistered methtok)
  else
    match tables.hookSubs.findIdx? (· = cmd.methodname) with
    | some i => .ok (⟨.hook i, cmd, paramstok⟩, stage)
    | none =>
        match tables.commands.findIdx? (· = cmd.methodname) with
        | some i => .ok (⟨.command i, cmd, paramstok⟩, stage)
        | none => .error (.unknown cmd.methodname)

/-- How the calls of `ld_read_json_one` end: more has to be read, or the plugin exits. -/
inductive LdStop where
  | more (parser : JsmnParser) (buffer : Text)
  | err (error : LdError)
  deriving Repr, DecidableEq

/-- Call `ld_read_json_one` as long as it has handled a message. -/
def ldReadLoop (tables : LdTables) :
    Nat → JsmnParser → Text → LdStage → List LdCall × LdStage × LdStop
  | 0, parser, buffer, stage => ([], stage, .more parser buffer)
  | fuel + 1, parser, buffer, stage =>
      match jsonParseBytes parser buffer with
      | .invalid => ([], stage, .err (.parse buffer))
      | .incomplete parser => ([], stage, .more parser buffer)
      | .complete json toks =>
          match toks with
          -- a single token, the one behind the last
          | [] => ([], stage, .more jsmnInit [])
          | root :: _ =>
              match ldCommandHandle tables stage json with
              | .error error => ([], stage, .err error)
              | .ok (call, stage) =>
                  let (calls, last) :=
                    ldReadLoop tables fuel jsmnInit (buffer.drop (root.stop.getD 0)) stage
                  (call :: calls, last)

/-- The part of `struct plugin` that reads from lightningd.  The buffer holds what is used of
    it, and `capacity` is its size. -/
structure LdConn where
  parser : JsmnParser
  buffer : Text
  capacity : Nat
  stage : LdStage
  room : buffer.length < capacity

/-- As `new_plugin` sets it up. -/
def LdConn.new : LdConn := ⟨jsmnInit, [], 64, ⟨false, false⟩, by decide⟩

/-- How much `io_read_partial` is asked for. -/
def LdConn.space (conn : LdConn) : Nat := conn.capacity - conn.buffer.length

theorem LdConn.space_pos (conn : LdConn) : 0 < conn.space := Nat.sub_pos_of_lt conn.room

/-- What the loop leaves in the buffer is no more than what was there. -/
theorem ldReadLoop_shorter {tables : LdTables} {fuel : Nat} {parser parser' : JsmnParser}
    {buffer buffer' : Text} {stage stage' : LdStage} {calls : List LdCall}
    (run : ldReadLoop tables fuel parser buffer stage = (calls, stage', .more parser' buffer')) :
    buffer'.length ≤ buffer.length := by
  induction fuel generalizing parser buffer stage calls with
  | zero =>
      cases run
      exact le_rfl
  | succ fuel ih =>
      rw [ldReadLoop] at run
      split at run
      · cases run
      · cases run
        exact le_rfl
      · split at run
        · cases run
          exact Nat.zero_le _
        · next root toks =>
            split at run
            · cases run
            · next call stage'' handled =>
                have last := (Prod.mk.inj run).2
                have rest := ih (Prod.ext rfl last)
                rw [List.length_drop] at rest
                omega

/-- A connection that goes on reading, or one whose plugin exits with the flags as they are. -/
inductive LdAfter where
  | reading (conn : LdConn)
  | exits (stage : LdStage) (error : LdError)

/-- `ld_read_json` on the bytes that have been read, and what it calls. -/
def ldReadJson (tables : LdTables) (conn : LdConn) (bytes : Text)
    (fits : bytes.length ≤ conn.space) : List LdCall × LdAfter :=
  let buffer := conn.buffer ++ bytes
  let capacity :=
    if buffer ≠ [] ∧ buffer.length = conn.capacity then buffer.length * 2 else conn.capacity
  match run : ldReadLoop tables (buffer.length + 2) conn.parser buffer conn.stage with
  | (calls, stage, .more parser buffer') =>
      (calls, .reading ⟨parser, buffer', capacity, stage, by
        have shorter := ldReadLoop_shorter run
        have room := conn.room
        have size : buffer.length = conn.buffer.length + bytes.length := List.length_append
        rw [LdConn.space] at fits
        show buffer'.length < if buffer ≠ [] ∧ buffer.length = conn.capacity then _ else _
        split_ifs with full
        · have := List.length_pos_iff.mpr full.1
          omega
        · by_cases empty : buffer = []
          · rw [empty, List.length_nil] at shorter
            omega
          · have : buffer.length ≠ conn.capacity := fun same => full ⟨empty, same⟩
            omega⟩)
  | (calls, stage, .err error) => (calls, .exits stage error)

/-- Read some chunks one after the other, `none` if one of them is more than was asked for. -/
def ldReadAll (tables : LdTables) : LdConn → List Text → Option (List LdCall × LdAfter)
  | conn, [] => some ([], .reading conn)
  | conn, chunk :: chunks =>
      if fits : chunk.length ≤ conn.space then
        match ldReadJson tables conn chunk fits with
        | (calls, .exits stage error) => some (calls, .exits stage error)
        | (calls, .reading conn) =>
            (ldReadAll tables conn chunks).map fun (more, last) => (calls ++ more, last)
      else none

/-! ## Dispatching a list of messages -/

/-- What is to be called for these messages, without any bytes. -/
def ldDispatch (tables : LdTables) : LdStage → List Json → List LdCall × LdStage × Option LdError
  | stage, [] => ([], stage, none)
  | stage, json :: jsons =>
      match ldCommandHandle tables stage json with
      | .error error => ([], stage, some error)
      | .ok (call, stage) =>
          let (calls, last) := ldDispatch tables stage jsons
          (call :: calls, last)

theorem ldDispatch_append (tables : LdTables) (stage : LdStage) (front back : List Json) :
    ldDispatch tables stage (front ++ back) =
      match ldDispatch tables stage front with
      | (calls, stage, some error) => (calls, stage, some error)
      | (calls, stage, none) =>
          let (more, last) := ldDispatch tables stage back
          (calls ++ more, last) := by
  induction front generalizing stage with
  | nil => rfl
  | cons json front ih =>
      rw [List.cons_append, ldDispatch, ldDispatch]
      cases ldCommandHandle tables stage json with
      | error error => rfl
      | ok handled =>
          obtain ⟨call, stage⟩ := handled
          dsimp only
          rw [ih]
          rcases ldDispatch tables stage front with ⟨calls, stage, error | _⟩ <;> rfl

theorem ldReadLoop_nil (tables : LdTables) (fuel : Nat) (stage : LdStage) :
    ldReadLoop tables (fuel + 1) jsmnInit [] stage = ([], stage, .more jsmnInit []) := by
  have none : jsonParseBytes jsmnInit [] = .incomplete jsmnInit := by decide
  rw [ldReadLoop, none]

/-- What the loop does, in terms of the messages that the framing loop finds. -/
theorem ldReadLoop_eq (tables : LdTables) {fuel : Nat} {parser : JsmnParser} {buffer : Text}
    {framed : List Framed} {s : Framing} (run : framingLoop fuel parser buffer = some (framed, s))
    (stage : LdStage) :
    ldReadLoop tables (fuel + 1) parser buffer stage =
      match ldDispatch tables stage (framed.map Framed.json) with
      | (calls, stage, some error) => (calls, stage, .err error)
      | (calls, stage, none) => (calls, stage, .more s.parser s.buffer) := by
  induction fuel generalizing parser buffer framed s stage with
  | zero => cases run
  | succ fuel ih =>
      rw [framingLoop] at run
      rw [ldReadLoop]
      cases parsed : jsonParseBytes parser buffer with
      | invalid =>
          rw [parsed] at run
          cases run
      | incomplete parser' =>
          rw [parsed] at run
          cases run
          rfl
      | complete json toks =>
          rw [parsed] at run
          cases toks with
          | nil =>
              cases run
              rfl
          | cons root tail =>
              dsimp only at run ⊢
              split_ifs at run with none
              · cases run
                rw [none, List.map_singleton, ldDispatch]
                cases ldCommandHandle tables stage json with
                | error error => rfl
                | ok handled =>
                    dsimp only
                    rw [ldReadLoop_nil]
                    rfl
              · obtain ⟨⟨more, s'⟩, rest, same⟩ := Option.map_eq_some_iff.mp run
                cases same
                rw [List.map_cons, ldDispatch]
                cases ldCommandHandle tables stage json with
                | error error => rfl
                | ok handled =>
                    obtain ⟨call, stage'⟩ := handled
                    dsimp only
                    rw [ih rest stage']
                    rcases ldDispatch tables stage' (more.map Framed.json) with
                      ⟨calls, stage, error | _⟩ <;> rfl

/-! ## Chunks of a stream -/

/-- No chunk ends inside a primitive. -/
def WholeChunks (before : Text) (chunks : List Text) : Prop :=
  ∀ front back, chunks = front ++ back → ¬ CutsPrimitive (before ++ front.flatten) back.flatten

theorem WholeChunks.head {before chunk : Text} {chunks : List Text}
    (whole : WholeChunks before (chunk :: chunks)) :
    ¬ CutsPrimitive before (chunk ++ chunks.flatten) := by
  have here := whole [] (chunk :: chunks) rfl
  rwa [List.flatten_nil, List.append_nil, List.flatten_cons] at here

/-- Only where the buffer ends matters for the chunks that follow. -/
theorem WholeChunks.tail {before before' chunk : Text} {chunks : List Text}
    (whole : WholeChunks before (chunk :: chunks))
    (same : Lex.outside.after before' = Lex.outside.after (before ++ chunk)) :
    WholeChunks before' chunks := fun front back split => by
  have here := whole (chunk :: front) back (by rw [split, List.cons_append])
  rwa [CutsPrimitive, Lex.after_append, same, ← Lex.after_append, List.append_assoc,
    ← List.flatten_cons]

theorem ldReadJson_exits {tables : LdTables} {conn : LdConn} {bytes : Text}
    {fits : bytes.length ≤ conn.space} {calls : List LdCall} {stage : LdStage} {error : LdError}
    (run : ldReadLoop tables ((conn.buffer ++ bytes).length + 2) conn.parser
      (conn.buffer ++ bytes) conn.stage = (calls, stage, .err error)) :
    ldReadJson tables conn bytes fits = (calls, .exits stage error) := by
  unfold ldReadJson
  dsimp only
  split
  · next more =>
      rw [run] at more
      cases more
  · next err =>
      rw [run] at err
      cases err
      rfl

theorem ldReadJson_reads {tables : LdTables} {conn : LdConn} {bytes : Text}
    (fits : bytes.length ≤ conn.space) {calls : List LdCall} {stage : LdStage}
    {parser : JsmnParser} {buffer : Text}
    (run : ldReadLoop tables ((conn.buffer ++ bytes).length + 2) conn.parser
      (conn.buffer ++ bytes) conn.stage = (calls, stage, .more parser buffer)) :
    ∃ conn', ldReadJson tables conn bytes fits = (calls, .reading conn') ∧
      conn'.parser = parser ∧ conn'.buffer = buffer ∧ conn'.stage = stage := by
  unfold ldReadJson
  dsimp only
  split
  · next more =>
      rw [run] at more
      cases more
      exact ⟨_, rfl, rfl, rfl, rfl⟩
  · next err =>
      rw [run] at err
      cases err

def LdAfter.error : LdAfter → Option LdError
  | .reading _ => none
  | .exits _ error => some error

def LdAfter.stage : LdAfter → LdStage
  | .reading conn => conn.stage
  | .exits stage _ => stage

/-- What is to be called for the messages that are there, and how the reading goes on. -/
theorem ldReadJson_settled {tables : LdTables} {conn : LdConn} {msgs : List (Text × Json)}
    {last chunk future : Text}
    (settled : Settled msgs last (chunk ++ future) ⟨conn.parser, conn.buffer⟩)
    (messages : ∀ m ∈ msgs, ValidMessage m) (blanks : Blanks last) (nonempty : chunk ≠ [])
    (whole : ¬ CutsPrimitive conn.buffer (chunk ++ future)) (fits : chunk.length ≤ conn.space) :
    ∃ done waiting calls stage, msgs = done ++ waiting ∧
      ((∃ error, ldDispatch tables conn.stage (done.map Prod.snd) = (calls, stage, some error) ∧
        ldReadJson tables conn chunk fits = (calls, .exits stage error)) ∨
      ∃ conn', ldDispatch tables conn.stage (done.map Prod.snd) = (calls, stage, none) ∧
        ldReadJson tables conn chunk fits = (calls, .reading conn') ∧ conn'.stage = stage ∧
        Settled waiting last future ⟨conn'.parser, conn'.buffer⟩ ∧
        Lex.outside.after conn'.buffer = Lex.outside.after (conn.buffer ++ chunk)) := by
  obtain ⟨done, waiting, s, split, run, settled', lex⟩ :=
    settled.feed messages blanks nonempty whole
  have loop := ldReadLoop_eq tables run conn.stage
  have jsons : (done.map frame).map Framed.json = done.map Prod.snd := by
    rw [List.map_map]
    rfl
  rw [jsons] at loop
  rcases dispatched : ldDispatch tables conn.stage (done.map Prod.snd) with
    ⟨calls, stage, _ | error⟩
  · rw [dispatched] at loop
    obtain ⟨conn', read, parser, buffer, stage'⟩ := ldReadJson_reads fits loop
    refine ⟨done, waiting, calls, stage, split, .inr ⟨conn', dispatched, read, stage', ?_, ?_⟩⟩
    · rw [parser, buffer]
      exact settled'
    · rw [buffer]
      exact lex
  · rw [dispatched] at loop
    exact ⟨done, waiting, calls, stage, split, .inl ⟨error, dispatched, ldReadJson_exits loop⟩⟩

/-- Whatever the chunks, the calls, the flags and the error are those of the messages, if no chunk
    ends inside a primitive. -/
theorem ldReadAll_settled {tables : LdTables} {msgs : List (Text × Json)} {last : Text}
    {chunks : List Text} {conn : LdConn}
    (settled : Settled msgs last chunks.flatten ⟨conn.parser, conn.buffer⟩)
    (messages : ∀ m ∈ msgs, ValidMessage m) (blanks : Blanks last)
    (nonempty : ∀ chunk ∈ chunks, chunk ≠ []) (whole : WholeChunks conn.buffer chunks)
    {calls : List LdCall} {after : LdAfter}
    (run : ldReadAll tables conn chunks = some (calls, after)) :
    ldDispatch tables conn.stage (msgs.map Prod.snd) = (calls, after.stage, after.error) := by
  induction chunks generalizing conn msgs calls after with
  | nil =>
      cases run
      have stream := settled.stream
      rw [List.flatten_nil, List.append_nil] at stream
      have done : msgs = [] := by
        cases msgs with
        | nil => rfl
        | cons m msgs =>
            have waits := settled.waits m rfl
            rw [stream, streamText] at waits
            simp only [List.length_append] at waits
            omega
      rw [done]
      rfl
  | cons chunk chunks ih =>
      rw [List.forall_mem_cons] at nonempty
      rw [ldReadAll] at run
      split_ifs at run with fits
      obtain ⟨done, waiting, made, stage, rfl, ended | goesOn⟩ :=
        ldReadJson_settled settled messages blanks nonempty.1 whole.head fits
      · obtain ⟨error, dispatched, read⟩ := ended
        rw [read] at run
        cases run
        rw [List.map_append, ldDispatch_append, dispatched]
        rfl
      · obtain ⟨conn', dispatched, read, rfl, settled', lex⟩ := goesOn
        rw [read] at run
        obtain ⟨⟨more, after'⟩, rest, same⟩ := Option.map_eq_some_iff.mp run
        cases same
        have later : ∀ m ∈ waiting, ValidMessage m := fun m member =>
          messages m (List.mem_append_right _ member)
        have tail := ih settled' later nonempty.2 (whole.tail lex) rest
        rw [List.map_append, ldDispatch_append, dispatched]
        dsimp only
        rw [tail]

/-- A message sent by lightningd is handled once and in its turn, whatever the chunks that its
    bytes are read in, as long as no chunk ends inside a primitive; the first message that cannot
    be handled is the last, and its error is the one that the plugin exits with.  The flags are
    left as the messages leave them. -/
theorem ld_calls_independent {tables : LdTables} {msgs : List (Text × Json)} {last : Text}
    {chunks : List Text} (messages : ∀ m ∈ msgs, ValidMessage m) (blanks : Blanks last)
    (nonempty : ∀ chunk ∈ chunks, chunk ≠ []) (stream : chunks.flatten = streamText msgs last)
    (whole : WholeChunks [] chunks) {calls : List LdCall} {after : LdAfter}
    (run : ldReadAll tables .new chunks = some (calls, after)) :
    ldDispatch tables ⟨false, false⟩ (msgs.map Prod.snd) = (calls, after.stage, after.error) := by
  have texts : ∀ m ∈ msgs, MessageText m := fun m member => (messages m member).toMessageText
  have start : Settled msgs last chunks.flatten ⟨LdConn.new.parser, LdConn.new.buffer⟩ :=
    stream ▸ settled_framingInit texts
  exact ldReadAll_settled start messages blanks nonempty whole run

/-- A request for the manifest and one that comes too early, cut inside a name. -/
theorem ld_calls_independent_early : ldDispatch ⟨[], [], ["pay".toList]⟩ ⟨false, false⟩
    ([([], .tight [("id".toList, .primitive "7".toList),
        ("method".toList, .string "getmanifest".toList), ("params".toList, .tight [])]),
      ("\n\n".toList, .tight [("id".toList, .primitive "8".toList),
        ("method".toList, .string "pay".toList), ("params".toList, .tight [])])].map Prod.snd) =
    ([⟨.getmanifest, ⟨some 7, "getmanifest".toList⟩, .tight []⟩], ⟨true, false⟩,
      some (.notInitialized "pay".toList)) := by
  have request : ∀ id method, PrimitiveText id → KeyText method →
      (Json.tight [("id".toList, .primitive id), ("method".toList, .string method),
        ("params".toList, .tight [])]).Encoded := fun id method number name => by
    refine .tight ?_ ?_ <;> simp only [List.forall_mem_cons, List.not_mem_nil, false_imp_iff,
      implies_true, and_true]
    · exact ⟨.of_plain (by decide), .of_plain (by decide), .of_plain (by decide)⟩
    · exact ⟨.primitive number, .string name.1 name.2, .tight (by simp) (by simp)⟩
  have number : ∀ c : Char, c.isDigit = true → PrimitiveText [c] := fun c digit =>
    .inr (.inr (.inr ⟨c, [], rfl, .inr digit, by simp⟩))
  have evaluated : (ldReadAll ⟨[], [], ["pay".toList]⟩ .new
      ["\x7b\"id\":7,\"method\":\"getman".toList,
        "ifest\",\"params\":\x7b\x7d\x7d".toList,
        "\n\n\x7b\"id\":8,\"method\":\"pay\",\"params\":\x7b\x7d\x7d".toList]).map
        (fun r => (r.1, r.2.stage, r.2.error)) =
      some ([⟨.getmanifest, ⟨some 7, "getmanifest".toList⟩, .tight []⟩], ⟨true, false⟩,
        some (.notInitialized "pay".toList)) := by decide +kernel
  obtain ⟨⟨calls, after⟩, run, same⟩ := Option.map_eq_some_iff.mp evaluated
  rw [← same]
  refine ld_calls_independent ?_ (fun c member => absurd member List.not_mem_nil) (by decide)
    (by decide +kernel) (fun front back split cut => ?_) run
  · simp only [List.forall_mem_cons, List.not_mem_nil, false_imp_iff, implies_true, and_true]
    exact ⟨(request _ _ (number '7' rfl) (.of_plain (by decide))).message
        (fun c member => absurd member List.not_mem_nil),
      (request _ _ (number '8' rfl) (.of_plain (by decide))).message
        (forall_mem_of_all (by decide))⟩
  · rcases front with _ | ⟨a, _ | ⟨b, _ | ⟨c, rest⟩⟩⟩
    · cases cut.1
    · obtain ⟨rfl, -⟩ := List.cons.inj split
      exact absurd cut.1 (by decide +kernel)
    · obtain ⟨rfl, more⟩ := List.cons.inj split
      obtain ⟨rfl, -⟩ := List.cons.inj more
      exact absurd cut.1 (by decide +kernel)
    · obtain ⟨-, more⟩ := List.cons.inj split
      obtain ⟨-, more⟩ := List.cons.inj more
      obtain ⟨-, more⟩ := List.cons.inj more
      obtain ⟨-, rfl⟩ := List.append_eq_nil_iff.mp more.symm
      exact cut.2 trivial

/-! ## What is called when -/

/-- The call goes to the first entry of its name in the table that is due: the notifications
    for what has no id, and else the hooks before the commands. -/
def LdCall.Registered (tables : LdTables) (call : LdCall) : Prop :=
  match call.handler with
  | .notification i => call.cmd.id = none ∧
      tables.notifSubs.findIdx? (· = call.cmd.methodname) = some i
  | .hook i => call.cmd.id ≠ none ∧
      tables.hookSubs.findIdx? (· = call.cmd.methodname) = some i
  | .command i => call.cmd.id ≠ none ∧ call.cmd.methodname ∉ tables.hookSubs ∧
      tables.commands.findIdx? (· = call.cmd.methodname) = some i
  | .getmanifest | .init => False

/-- One message is handled: it decides the command and its parameters, and the flags decide
    what may be called. -/
structure LdHandled (tables : LdTables) (stage : LdStage) (call : LdCall) (stage' : LdStage) :
    Prop where
  /-- Some message is where the command and its parameters come from. -/
  message : ∃ toks methtok, ldCommand toks = .ok (call.cmd, methtok, call.params)
  /-- The manifest comes first. -/
  manifest : stage.manifested = false → call.handler = .getmanifest ∧
    call.cmd.methodname = "getmanifest".toList ∧ stage' = { stage with manifested := true }
  /-- Then comes the initialization. -/
  init : stage.manifested = true → stage.initialized = false → call.handler = .init ∧
    call.cmd.methodname = "init".toList ∧ stage' = { stage with initialized := true }
  /-- And from then on what is registered. -/
  registered : stage.manifested = true → stage.initialized = true →
    call.Registered tables ∧ stage' = stage

theorem ldHandled_of_handle {tables : LdTables} {stage stage' : LdStage} {toks : Json}
    {call : LdCall} (handled : ldCommandHandle tables stage toks = .ok (call, stage')) :
    LdHandled tables stage call stage' := by
  rw [ldCommandHandle] at handled
  obtain ⟨⟨cmd, methtok, params⟩, read, rest⟩ := eq_of_bind_eq_ok handled
  dsimp only at rest
  split_ifs at rest with fresh name young name' notif
  · cases rest
    exact ⟨⟨toks, methtok, read⟩, fun _ => ⟨rfl, name, rfl⟩, fun other => by simp [fresh] at other,
      fun other => by simp [fresh] at other⟩
  · cases rest
    exact ⟨⟨toks, methtok, read⟩, fun other => absurd other fresh, fun _ _ => ⟨rfl, name', rfl⟩,
      fun _ other => by simp [young] at other⟩
  -- Both flags are set, and the tables are searched.
  all_goals
    rw [Bool.not_eq_false] at fresh young
    have found : ∀ handler, (LdCall.mk handler cmd params).Registered tables →
        LdHandled tables stage ⟨handler, cmd, params⟩ stage := fun handler there =>
      ⟨⟨toks, methtok, read⟩, fun other => by simp [fresh] at other,
        fun _ other => by simp [young] at other, fun _ _ => ⟨there, rfl⟩⟩
  · cases search : tables.notifSubs.findIdx? (· = cmd.methodname) with
    | none =>
        rw [search] at rest
        cases rest
    | some i =>
        rw [search] at rest
        cases rest
        exact found _ ⟨notif, search⟩
  · cases hooks : tables.hookSubs.findIdx? (· = cmd.methodname) with
    | some i =>
        rw [hooks] at rest
        cases rest
        exact found _ ⟨notif, hooks⟩
    | none =>
        rw [hooks] at rest
        have unhooked : cmd.methodname ∉ tables.hookSubs := fun member => by
          have := List.findIdx?_eq_none_iff.mp hooks _ member
          simp at this
        cases search : tables.commands.findIdx? (· = cmd.methodname) with
        | none =>
            rw [search] at rest
            cases rest
        | some i =>
            rw [search] at rest
            cases rest
            exact found _ ⟨notif, unhooked, search⟩

open Runs in
theorem ldReadLoop_run {tables : LdTables} {fuel : Nat} {parser : JsmnParser} {buffer : Text}
    {stage stage' : LdStage} {calls : List LdCall} {stop : LdStop}
    (loop : ldReadLoop tables fuel parser buffer stage = (calls, stage', stop)) :
    Run (LdHandled tables) stage calls stage' := by
  induction fuel generalizing parser buffer stage calls with
  | zero =>
      cases loop
      exact .nil
  | succ fuel ih =>
      rw [ldReadLoop] at loop
      cases parsed : jsonParseBytes parser buffer with
      | invalid | incomplete =>
          rw [parsed] at loop
          cases loop
          exact .nil
      | complete json toks =>
          rw [parsed] at loop
          cases toks with
          | nil =>
              cases loop
              exact .nil
          | cons root tail =>
              dsimp only at loop
              cases handled : ldCommandHandle tables stage json with
              | error error =>
                  rw [handled] at loop
                  cases loop
                  exact .nil
              | ok next =>
                  obtain ⟨call, stage''⟩ := next
                  rw [handled] at loop
                  obtain ⟨rfl, last⟩ := Prod.mk.inj loop
                  exact .cons (ldHandled_of_handle handled) (ih (Prod.ext rfl last))

open Runs in
theorem ldReadAll_run {tables : LdTables} {chunks : List Text} {conn : LdConn}
    {calls : List LdCall} {after : LdAfter}
    (run : ldReadAll tables conn chunks = some (calls, after)) :
    ∃ stage, Run (LdHandled tables) conn.stage calls stage := by
  induction chunks generalizing conn calls after with
  | nil =>
      cases run
      exact ⟨_, .nil⟩
  | cons chunk chunks ih =>
      rw [ldReadAll] at run
      split_ifs at run with fits
      rcases loop : ldReadLoop tables ((conn.buffer ++ chunk).length + 2) conn.parser
        (conn.buffer ++ chunk) conn.stage with ⟨made, stage, ⟨parser, buffer⟩ | error⟩
      · obtain ⟨conn', read, -, -, rfl⟩ := ldReadJson_reads fits loop
        rw [read] at run
        obtain ⟨⟨more, after'⟩, rest, same⟩ := Option.map_eq_some_iff.mp run
        cases same
        obtain ⟨stage', tail⟩ := ih rest
        exact ⟨stage', (ldReadLoop_run loop).append tail⟩
      · rw [ldReadJson_exits loop] at run
        cases run
        exact ⟨stage, ldReadLoop_run loop⟩

/-- Calls in the order that the protocol asks for. -/
structure LdProtocol (tables : LdTables) (calls : List LdCall) : Prop where
  manifest : ∀ call ∈ calls.head?, call.handler = .getmanifest ∧
    call.cmd.methodname = "getmanifest".toList
  init : ∀ call ∈ calls.tail.head?, call.handler = .init ∧ call.cmd.methodname = "init".toList
  registered : ∀ call ∈ calls.drop 2, call.Registered tables

open Runs in
theorem LdProtocol.of_initialized {tables : LdTables} {stage stage' : LdStage}
    {calls : List LdCall} (run : Run (LdHandled tables) stage calls stage')
    (manifested : stage.manifested = true) (initialized : stage.initialized = true) :
    ∀ call ∈ calls, call.Registered tables := by
  induction run with
  | nil => simp
  | cons handled _ ih =>
      obtain ⟨registered, rfl⟩ := handled.registered manifested initialized
      exact List.forall_mem_cons.mpr ⟨registered, ih manifested initialized⟩

/-- Whatever is written on the plugin's stdin, in whatever chunks, be it JSON or not: the
    manifest is handled first and the initialization second, and each later call goes to the
    first entry of its name in the table that is due. -/
theorem ld_calls_follow_protocol {tables : LdTables} {chunks : List Text} {calls : List LdCall}
    {after : LdAfter} (run : ldReadAll tables .new chunks = some (calls, after)) :
    LdProtocol tables calls := by
  obtain ⟨stage, run⟩ := ldReadAll_run run
  cases run with
  | nil => exact ⟨by simp, by simp, by simp⟩
  | cons first rest =>
      obtain ⟨handler, name, rfl⟩ := first.manifest rfl
      cases rest with
      | nil => exact ⟨by simp [handler, name], by simp, by simp⟩
      | cons second rest =>
          obtain ⟨handler', name', rfl⟩ := second.init rfl rfl
          exact ⟨by simp [handler, name], by simp [handler', name'],
            LdProtocol.of_initialized rest rfl rfl⟩

theorem ldReadAll_whole {tables : LdTables} {chunk : Text} {capacity : Nat} {stage stage' : LdStage}
    {calls : List LdCall} {fuel : Nat} (room : ([] : Text).length < capacity)
    (loop : ldReadLoop tables fuel jsmnInit chunk stage = (calls, stage', .more jsmnInit []))
    (size : fuel = chunk.length + 2) (fits : chunk.length < capacity) (chunks : List Text) :
    ldReadAll tables ⟨jsmnInit, [], capacity, stage, room⟩ (chunk :: chunks) =
      (ldReadAll tables ⟨jsmnInit, [], capacity, stage', room⟩ chunks).map
        fun (more, last) => (calls ++ more, last) := by
  rw [size] at loop
  have read : ∀ fits, ldReadJson tables ⟨jsmnInit, [], capacity, stage, room⟩ chunk fits =
      (calls, .reading ⟨jsmnInit, [], capacity, stage', room⟩) := fun fits' => by
    have same : (if ([] ++ chunk) ≠ [] ∧ ([] ++ chunk).length = capacity
        then ([] ++ chunk).length * 2 else capacity) = capacity :=
      if_neg fun full => Nat.ne_of_lt fits full.2
    unfold ldReadJson
    dsimp only
    split
    · next more =>
        rw [List.nil_append] at more
        cases loop.symm.trans more
        simp only [same]
    · next err =>
        rw [List.nil_append] at err
        cases loop.symm.trans err
  rw [ldReadAll, dif_pos (by rw [LdConn.space]; exact Nat.le_of_lt fits), read]

/-- The manifest, the initialization, a name that is in both tables, a notification, and then what
    is not JSON. -/
theorem ld_calls_follow_protocol_malformed :
    LdProtocol ⟨["forward".toList], ["peer".toList], ["peer".toList]⟩
      [⟨.getmanifest, ⟨some 7, "getmanifest".toList⟩, .tight []⟩,
        ⟨.init, ⟨some 8, "init".toList⟩, .tight []⟩, ⟨.hook 0, ⟨some 9, "peer".toList⟩, .tight []⟩,
        ⟨.notification 0, ⟨none, "forward".toList⟩, .tight []⟩] := by
  have manifest : ldReadLoop ⟨["forward".toList], ["peer".toList], ["peer".toList]⟩ 45 jsmnInit
      "\x7b\"id\":7,\"method\":\"getmanifest\",\"params\":\x7b\x7d\x7d".toList ⟨false, false⟩ =
      ([⟨.getmanifest, ⟨some 7, "getmanifest".toList⟩, .tight []⟩], ⟨true, false⟩,
        .more jsmnInit []) := by decide +kernel
  have init : ldReadLoop ⟨["forward".toList], ["peer".toList], ["peer".toList]⟩ 38 jsmnInit
      "\x7b\"id\":8,\"method\":\"init\",\"params\":\x7b\x7d\x7d".toList ⟨true, false⟩ =
      ([⟨.init, ⟨some 8, "init".toList⟩, .tight []⟩], ⟨true, true⟩, .more jsmnInit []) := by
    decide +kernel
  have peer : ldReadLoop ⟨["forward".toList], ["peer".toList], ["peer".toList]⟩ 38 jsmnInit
      "\x7b\"id\":9,\"method\":\"peer\",\"params\":\x7b\x7d\x7d".toList ⟨true, true⟩ =
      ([⟨.hook 0, ⟨some 9, "peer".toList⟩, .tight []⟩], ⟨true, true⟩, .more jsmnInit []) := by
    decide +kernel
  have forward : ldReadLoop ⟨["forward".toList], ["peer".toList], ["peer".toList]⟩ 34 jsmnInit
      "\x7b\"method\":\"forward\",\"params\":\x7b\x7d\x7d".toList ⟨true, true⟩ =
      ([⟨.notification 0, ⟨none, "forward".toList⟩, .tight []⟩], ⟨true, true⟩,
        .more jsmnInit []) := by decide +kernel
  have malformed : ldReadLoop ⟨["forward".toList], ["peer".toList], ["peer".toList]⟩ 4
      jsmnInit " ]".toList ⟨true, true⟩ =
      ([], ⟨true, true⟩, .err (.parse " ]".toList)) := by decide +kernel
  have room : ([] : Text).length < 64 := by decide
  have last : ldReadAll ⟨["forward".toList], ["peer".toList], ["peer".toList]⟩
      ⟨jsmnInit, [], 64, ⟨true, true⟩, room⟩ [" ]".toList] =
      some ([], .exits ⟨true, true⟩ (.parse " ]".toList)) := by
    have fits : " ]".toList.length ≤ (LdConn.mk jsmnInit [] 64 ⟨true, true⟩ room).space := by
      show " ]".toList.length ≤ 64
      decide
    rw [ldReadAll, dif_pos fits, ldReadJson_exits malformed]
  have first := ldReadAll_whole room manifest (by decide) (by decide)
  have second := ldReadAll_whole room init (by decide) (by decide)
  have third := ldReadAll_whole room peer (by decide) (by decide)
  have fourth := ldReadAll_whole room forward (by decide) (by decide)
  have run : ldReadAll ⟨["forward".toList], ["peer".toList], ["peer".toList]⟩ .new
      ["\x7b\"id\":7,\"method\":\"getmanifest\",\"params\":\x7b\x7d\x7d".toList,
        "\x7b\"id\":8,\"method\":\"init\",\"params\":\x7b\x7d\x7d".toList,
        "\x7b\"id\":9,\"method\":\"peer\",\"params\":\x7b\x7d\x7d".toList,
        "\x7b\"method\":\"forward\",\"params\":\x7b\x7d\x7d".toList, " ]".toList] =
      some ([⟨.getmanifest, ⟨some 7, "getmanifest".toList⟩, .tight []⟩,
        ⟨.init, ⟨some 8, "init".toList⟩, .tight []⟩, ⟨.hook 0, ⟨some 9, "peer".toList⟩, .tight []⟩,
        ⟨.notification 0, ⟨none, "forward".toList⟩, .tight []⟩],
        .exits ⟨true, true⟩ (.parse " ]".toList)) := by
    rw [LdConn.new, first, second, third, fourth, last]
    rfl
  exact ld_calls_follow_protocol run

end Payz
