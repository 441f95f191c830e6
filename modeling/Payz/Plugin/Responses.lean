import Payz.Json.Messages

/-! # What the plugin writes to lightningd

The responses, notifications and log lines of `plugins/libplugin.c`, each an object that is
closed by `json_stream_close` in `common/json_stream.c` and ends in two line feeds.  The build
does not define `COMPAT_V070`.
-/

namespace Payz

def jsonAddU64 (out : JsonOut) (fieldname : Option Text) (value : Nat) : JsonOut :=
  jsonOutAdd out fieldname false (formatU value)

/-- `json_stream_double_cr`; there are two characters at least. -/
def jsonStreamDoubleCr (out : JsonOut) : JsonOut :=
  let crNeeded : Text :=
    match out.outbuf.reverse with
    | '\n' :: '\n' :: _ => []
    | '\n' :: _ => ['\n']
    | _ => ['\n', '\n']
  ⟨out.outbuf ++ crNeeded, true⟩

def jsonStreamClose (out : JsonOut) : JsonOut := jsonStreamDoubleCr out

/-- `jsonrpc_stream_start`, of a command with this id. -/
def jsonrpcStreamStart (id : Nat) : JsonOut :=
  let js := jsonOutStart jsonOutNew none '{'
  let js := jsonAddString js (some "jsonrpc".toList) "2.0".toList
  jsonAddU64 js (some "id".toList) id

def jsonrpcStreamSuccess (id : Nat) : JsonOut :=
  jsonOutStart (jsonrpcStreamStart id) (some "result".toList) '{'

/-- `command_complete`: what it hands to `ld_send`. -/
def commandComplete (result : JsonOut) : Text := (jsonStreamClose (jsonOutEnd result '}')).outbuf

def commandFinished (response : JsonOut) : Text := commandComplete (jsonOutEnd response '}')

def commandDoneRaw (id : Nat) (label str : Text) : Text :=
  commandComplete (jsonOutAdd (jsonrpcStreamStart id) (some label) false str)

/-- `command_success`, with the contents of the result. -/
def commandSuccess (id : Nat) (result : Text) : Text :=
  commandComplete (jsonOutAddSplice (jsonrpcStreamStart id) (some "result".toList) result).2

/-- `command_done_err`, with the contents of the data if there is some. -/
def commandDoneErr (id : Nat) (code : Int) (errmsg : Text) (data : Option Text) : Text :=
  let js := jsonOutStart (jsonrpcStreamStart id) (some "error".toList) '{'
  let js := jsonAddErrcode js (some "code".toList) code
  let js := jsonAddString js (some "message".toList) errmsg
  let js := match data with
    | none => js
    | some data => (jsonOutAddSplice js (some "data".toList) data).2
  commandComplete (jsonOutEnd js '}')

/-- `command_fail`, of a message that is formatted. -/
def commandFail (id : Nat) (code : Int) (errmsg : Text) : Text :=
  commandDoneErr id code errmsg none

def forwardError (id : Nat) (error : Json) : Text :=
  commandDoneRaw id "error".toList error.jsonStrdup

def forwardResult (id : Nat) (result : Json) : Text :=
  commandDoneRaw id "result".toList result.jsonStrdup

def pluginNotificationStart (method : Text) : JsonOut :=
  let js := jsonOutStart jsonOutNew none '{'
  let js := jsonAddString js (some "jsonrpc".toList) "2.0".toList
  let js := jsonAddString js (some "method".toList) method
  jsonOutStart js (some "params".toList) '{'

def jsonrpcFinishAndSend (js : JsonOut) : Text := (jsonStreamClose (jsonOutEnd js '}')).outbuf

def pluginNotificationEnd (stream : JsonOut) : Text := jsonrpcFinishAndSend (jsonOutEnd stream '}')

/-- `enum log_level`, with all of its levels. -/
inductive PluginLogLevel where
  | ioOut
  | ioIn
  | dbg
  | inform
  | unusual
  | broken
  deriving Repr, DecidableEq

/-- The level as `plugin_logv` writes it. -/
def PluginLogLevel.text : PluginLogLevel → Text
  | .dbg => "debug".toList
  | .inform => "info".toList
  | .unusual => "warn".toList
  | .ioOut | .ioIn | .broken => "error".toList

/-- `plugin_logv`, of a message that is formatted. -/
def pluginLogv (l : PluginLogLevel) (message : Text) : Text :=
  let js := jsonOutStart jsonOutNew none '{'
  let js := jsonAddString js (some "jsonrpc".toList) "2.0".toList
  let js := jsonAddString js (some "method".toList) "log".toList
  let js := jsonOutStart js (some "params".toList) '{'
  let js := jsonAddString js (some "level".toList) l.text
  let js := jsonOutAdd js (some "message".toList) true message
  jsonrpcFinishAndSend (jsonOutEnd js '}')

/-! ## The objects that are written -/

/-- An object followed by two line feeds. -/
def sentText (members : List (Text × Json)) : Text :=
  (Json.tight members).jsonTokFull ++ ['\n', '\n']

/-- A response, a notification or a log line. -/
inductive LdSent where
  | result (id : Nat) (result : Json)
  | error (id : Nat) (error : Json)
  | notification (method : Text) (params : List (Text × Json))
  | log (level : PluginLogLevel) (message : Text)

def LdSent.members : LdSent → List (Text × Json)
  | .result id value => [
      ("jsonrpc".toList, .string "2.0".toList),
      ("id".toList, .primitive (formatU id)),
      ("result".toList, value)]
  | .error id value => [
      ("jsonrpc".toList, .string "2.0".toList),
      ("id".toList, .primitive (formatU id)),
      ("error".toList, value)]
  | .notification method params => [
      ("jsonrpc".toList, .string "2.0".toList),
      ("method".toList, .string (jsonEscape method)),
      ("params".toList, .tight params)]
  | .log level message => [
      ("jsonrpc".toList, .string "2.0".toList),
      ("method".toList, .string "log".toList),
      ("params".toList, .tight [("level".toList, .string level.text),
        ("message".toList, .string (jsonEscape message))])]

/-- What is handed to `ld_send`. -/
def LdSent.text (sent : LdSent) : Text := sentText sent.members

namespace JsonOut.Writing

variable {out inner : JsonOut} {before : Text} {members fields : List (Text × Json)}

theorem addRaw (writing : out.Writing before members) (fieldname : Text) (j : Json) :
    (jsonOutAdd out (some fieldname) false j.jsonTokFull).Writing before
      (members ++ [(fieldname, j)]) := writing.addTok fieldname j

theorem addString (writing : out.Writing before members) (fieldname value : Text) :
    (jsonAddString out (some fieldname) value).Writing before
      (members ++ [(fieldname, .string (jsonEscape value))]) := by
  rw [jsonAddString_eq]
  exact writing.addTok fieldname _

theorem close (writing : out.Writing [] members) :
    (jsonStreamClose (jsonOutEnd out '}')).outbuf = sentText members := by
  have ends : (jsonOutEnd out '}').outbuf.reverse = '}' :: out.outbuf.reverse := by
    rw [jsonOutEnd, List.reverse_append]
    rfl
  have close : jsonStreamDoubleCr (jsonOutEnd out '}') =
      ⟨(jsonOutEnd out '}').outbuf ++ ['\n', '\n'], true⟩ := by
    unfold jsonStreamDoubleCr
    rw [ends]
    rfl
  rw [jsonStreamClose, close, writing.finish, sentText]

end JsonOut.Writing

theorem jsonrpcStreamStart_writing (id : Nat) :
    (jsonrpcStreamStart id).Writing [] [("jsonrpc".toList, .string "2.0".toList),
      ("id".toList, .primitive (formatU id))] :=
  (JsonOut.Writing.start_root.addString "jsonrpc".toList "2.0".toList).addRaw "id".toList
    (.primitive (formatU id))

theorem commandDoneRaw_result (id : Nat) (result : Json) :
    commandDoneRaw id "result".toList result.jsonTokFull = (LdSent.result id result).text :=
  ((jsonrpcStreamStart_writing id).addRaw "result".toList result).close

theorem commandDoneRaw_error (id : Nat) (error : Json) :
    commandDoneRaw id "error".toList error.jsonTokFull = (LdSent.error id error).text :=
  ((jsonrpcStreamStart_writing id).addRaw "error".toList error).close

theorem commandSuccess_eq (id : Nat) {result : Json} (wellFormed : result.WellFormed) :
    commandSuccess id result.jsonTokFull = (LdSent.result id result).text := by
  rw [commandSuccess, jsonOutAddSplice_wellFormed wellFormed]
  exact commandDoneRaw_result id result

theorem commandFinished_eq {response : JsonOut} (id : Nat) {fields : List (Text × Json)}
    (writing : response.Writing
      (jsonOutMemberDirect (jsonrpcStreamStart id) (some "result".toList)).outbuf fields) :
    commandFinished response = (LdSent.result id (.tight fields)).text :=
  ((jsonrpcStreamStart_writing id).nested writing).close

def errorMembers (code : Int) (errmsg : Text) (data : Option Json) : List (Text × Json) :=
  [("code".toList, .primitive (formatD code)), ("message".toList, .string (jsonEscape errmsg))] ++
    (data.map fun value => ("data".toList, value)).toList

theorem commandDoneErr_eq (id : Nat) (code : Int) (errmsg : Text) {data : Option Json}
    (wellFormed : ∀ value ∈ data, value.WellFormed) :
    commandDoneErr id code errmsg (data.map Json.jsonTokFull) =
      (LdSent.error id (.tight (errorMembers code errmsg data))).text := by
  have head : (jsonAddString (jsonAddErrcode (jsonOutStart (jsonrpcStreamStart id)
      (some "error".toList) '{') (some "code".toList) code) (some "message".toList)
      errmsg).Writing
        (jsonOutMemberDirect (jsonrpcStreamStart id) (some "error".toList)).outbuf
        [("code".toList, .primitive (formatD code)),
          ("message".toList, .string (jsonEscape errmsg))] :=
    ((JsonOut.Writing.start "error".toList).addRaw "code".toList
      (.primitive (formatD code))).addString "message".toList errmsg
  cases data with
  | none => exact ((jsonrpcStreamStart_writing id).nested head).close
  | some value =>
      simp only [commandDoneErr, Option.map_some,
        jsonOutAddSplice_wellFormed (wellFormed value rfl)]
      exact ((jsonrpcStreamStart_writing id).nested (head.addTok "data".toList value)).close

theorem pluginNotificationEnd_eq {stream : JsonOut} (method : Text) {fields : List (Text × Json)}
    (writing : stream.Writing (jsonOutMemberDirect (jsonAddString (jsonAddString (jsonOutStart
      jsonOutNew none '{') (some "jsonrpc".toList) "2.0".toList) (some "method".toList) method)
      (some "params".toList)).outbuf fields) :
    pluginNotificationEnd stream = (LdSent.notification method fields).text :=
  (((JsonOut.Writing.start_root.addString "jsonrpc".toList "2.0".toList).addString
    "method".toList method).nested writing).close

theorem pluginLogv_eq (level : PluginLogLevel) (message : Text) :
    pluginLogv level message = (LdSent.log level message).text := by
  have inside := ((@JsonOut.Writing.start (jsonAddString (jsonAddString (jsonOutStart
    jsonOutNew none '{') (some "jsonrpc".toList) "2.0".toList) (some "method".toList)
    "log".toList) "params".toList).addString "level".toList level.text).addString
    "message".toList message
  have plain : jsonEscape level.text = level.text := by cases level <;> decide
  rw [plain] at inside
  exact (((JsonOut.Writing.start_root.addString "jsonrpc".toList "2.0".toList).addString
    "method".toList "log".toList).nested inside).close

/-- The object that is written. -/
def LdSent.json (sent : LdSent) : Json := .tight sent.members

/-- What may be sent. -/
def LdSent.Valid : LdSent → Prop
  | .result _ value | .error _ value => value.Encoded
  | .notification method params =>
      Utf8Text method ∧ method ≠ "log".toList ∧ ∀ m ∈ params, KeyText m.1 ∧ m.2.Encoded
  | .log _ message => Utf8Text message

theorem LdSent.Valid.encoded {sent : LdSent} (valid : sent.Valid) : sent.json.Encoded := by
  have version : (Json.string "2.0".toList).Encoded :=
    .string (KeyText.of_plain (by decide)).1 (KeyText.of_plain (by decide)).2
  have key : ∀ t ∈ ["jsonrpc".toList, "id".toList, "result".toList, "error".toList,
      "method".toList, "params".toList, "level".toList, "message".toList], KeyText t := by
    simp only [List.forall_mem_cons]
    exact ⟨.of_plain (by decide), .of_plain (by decide), .of_plain (by decide),
      .of_plain (by decide), .of_plain (by decide), .of_plain (by decide), .of_plain (by decide),
      .of_plain (by decide), nofun⟩
  simp only [List.forall_mem_cons] at key
  obtain ⟨jsonrpc, id, result, error, method, params, level, message, -⟩ := key
  cases sent with
  | result n value =>
      refine .tight ?_ ?_ <;> simp only [members, List.forall_mem_cons]
      · exact ⟨jsonrpc, id, result, nofun⟩
      · exact ⟨version, .formatU n, valid, nofun⟩
  | error n value =>
      refine .tight ?_ ?_ <;> simp only [members, List.forall_mem_cons]
      · exact ⟨jsonrpc, id, error, nofun⟩
      · exact ⟨version, .formatU n, valid, nofun⟩
  | notification name fields =>
      obtain ⟨utf8, -, fields⟩ := valid
      refine .tight ?_ ?_ <;> simp only [members, List.forall_mem_cons]
      · exact ⟨jsonrpc, method, params, nofun⟩
      · exact ⟨version, .escaped utf8, .tight (fun m there => (fields m there).1)
          fun m there => (fields m there).2, nofun⟩
  | log l text =>
      have plain : KeyText l.text := by cases l <;> exact .of_plain (by decide)
      have log : KeyText "log".toList := .of_plain (by decide)
      refine .tight ?_ ?_ <;> simp only [members, List.forall_mem_cons]
      · exact ⟨jsonrpc, method, params, nofun⟩
      · refine ⟨version, .string log.1 log.2, .tight ?_ ?_, nofun⟩ <;>
          simp only [List.forall_mem_cons]
        · exact ⟨level, message, nofun⟩
        · exact ⟨.string plain.1 plain.2, .escaped valid, nofun⟩

/-! ## The calls of the handlers -/

def addMembers (out : JsonOut) (fields : List (Text × Json)) : JsonOut :=
  fields.foldl (fun out m => jsonAddTok out (some m.1) m.2) out

/-- A call that sends, or those from the start of a stream to its end. -/
inductive LdSend where
  | success (id : Nat) (result : Json)
  | doneErr (id : Nat) (code : Int) (errmsg : Text) (data : Option Json)
  | fail (id : Nat) (code : Int) (errmsg : Text)
  | forwardError (id : Nat) (error : Json)
  | forwardResult (id : Nat) (result : Json)
  | finished (id : Nat) (fields : List (Text × Json))
  | notification (method : Text) (fields : List (Text × Json))
  | log (level : PluginLogLevel) (message : Text)

/-- What it hands to `ld_send`. -/
def LdSend.text : LdSend → Text
  | .success id result => commandSuccess id result.jsonTokFull
  | .doneErr id code errmsg data => commandDoneErr id code errmsg (data.map Json.jsonTokFull)
  | .fail id code errmsg => commandFail id code errmsg
  | .forwardError id error => Payz.forwardError id error
  | .forwardResult id result => Payz.forwardResult id result
  | .finished id fields => commandFinished (addMembers (jsonrpcStreamSuccess id) fields)
  | .notification method fields =>
      pluginNotificationEnd (addMembers (pluginNotificationStart method) fields)
  | .log level message => pluginLogv level message

/-- The message that it is to send. -/
def LdSend.sent : LdSend → LdSent
  | .success id result | .forwardResult id result => .result id result
  | .doneErr id code errmsg data => .error id (.tight (errorMembers code errmsg data))
  | .fail id code errmsg => .error id (.tight (errorMembers code errmsg none))
  | .forwardError id error => .error id error
  | .finished id fields => .result id (.tight fields)
  | .notification method fields => .notification method fields
  | .log level message => .log level message

/-- What may be handed to it.  `json_strdup` takes the quotes off a string, so that none may be
    forwarded. -/
def LdSend.Valid : LdSend → Prop
  | .success _ result => result.Encoded
  | .doneErr _ _ errmsg data => Utf8Text errmsg ∧ ∀ value ∈ data, value.Encoded
  | .fail _ _ errmsg => Utf8Text errmsg
  | .forwardError _ value | .forwardResult _ value => value.Encoded ∧ ∀ raw, value ≠ .string raw
  | .finished _ fields => ∀ m ∈ fields, KeyText m.1 ∧ m.2.Encoded
  | .notification method fields =>
      Utf8Text method ∧ method ≠ "log".toList ∧ ∀ m ∈ fields, KeyText m.1 ∧ m.2.Encoded
  | .log _ message => Utf8Text message

theorem JsonOut.Writing.addMembers {out : JsonOut} {before : Text} {members : List (Text × Json)}
    (writing : out.Writing before members) (fields : List (Text × Json)) :
    (Payz.addMembers out fields).Writing before (members ++ fields) := by
  induction fields generalizing out members with
  | nil => rwa [List.append_nil]
  | cons m fields ih =>
      have rest := ih (writing.addTok m.1 m.2)
      rwa [List.append_assoc] at rest

theorem jsonStrdup_eq {j : Json} (plain : ∀ raw, j ≠ .string raw) :
    j.jsonStrdup = j.jsonTokFull := by
  cases j with
  | string raw => exact absurd rfl (plain raw)
  | primitive | array | object => rfl

theorem LdSend.text_eq {call : LdSend} (valid : call.Valid) : call.text = call.sent.text := by
  cases call with
  | success id result => exact commandSuccess_eq id valid.wellFormed
  | doneErr id code errmsg data =>
      exact commandDoneErr_eq id code errmsg fun value there => (valid.2 value there).wellFormed
  | fail id code errmsg => exact @commandDoneErr_eq id code errmsg none nofun
  | forwardError id error =>
      rw [text, Payz.forwardError, jsonStrdup_eq valid.2]
      exact commandDoneRaw_error id error
  | forwardResult id result =>
      rw [text, Payz.forwardResult, jsonStrdup_eq valid.2]
      exact commandDoneRaw_result id result
  | finished id fields =>
      exact commandFinished_eq id (JsonOut.Writing.addMembers (.start "result".toList) fields)
  | notification method fields =>
      exact pluginNotificationEnd_eq method
        (JsonOut.Writing.addMembers (.start "params".toList) fields)
  | log level message => exact pluginLogv_eq level message

theorem errorMembers_encoded {code : Int} {errmsg : Text} {data : Option Json}
    (utf8 : Utf8Text errmsg) (encoded : ∀ value ∈ data, value.Encoded) :
    (Json.tight (errorMembers code errmsg data)).Encoded := by
  have keys : KeyText "code".toList ∧ KeyText "message".toList ∧ KeyText "data".toList :=
    ⟨.of_plain (by decide), .of_plain (by decide), .of_plain (by decide)⟩
  have each : ∀ m ∈ errorMembers code errmsg data, KeyText m.1 ∧ m.2.Encoded := by
    rw [errorMembers, List.forall_mem_append]
    refine ⟨?_, ?_⟩
    · simp only [List.forall_mem_cons]
      exact ⟨⟨keys.1, .formatD code⟩, ⟨keys.2.1, .escaped utf8⟩, nofun⟩
    · cases data with
      | none => exact nofun
      | some value => exact List.forall_mem_singleton.mpr ⟨keys.2.2, encoded value rfl⟩
  exact .tight (fun m there => (each m there).1) fun m there => (each m there).2

theorem LdSend.Valid.sent {call : LdSend} (valid : call.Valid) : call.sent.Valid := by
  cases call with
  | success | log | notification => exact valid
  | doneErr => exact errorMembers_encoded valid.1 valid.2
  | fail => exact errorMembers_encoded valid nofun
  | forwardError | forwardResult => exact valid.1
  | finished id fields =>
      exact .tight (fun m there => (valid m there).1) fun m there => (valid m there).2

end Payz
