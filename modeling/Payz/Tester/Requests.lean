import Payz.Plugin.Input
import Payz.Tester.Command

/-! # What the test driver writes to the plugin

`payz_tester_command_send` in `plugins/payz/tester/command.c`, and the notifications that
`payz_tester_command_process` sends back.  Nothing is written between two messages.
-/

namespace Payz

open Layout

/-- What `payz_tester_command_send` writes. -/
def payzTesterCommandSend (id : Nat) (method params : Text) : Text :=
  "\x7b\"jsonrpc\": \"2.0\", \"id\": ".toList ++ formatU id ++ ",  \"method\": \"".toList ++ method ++
    "\", \"params\": ".toList ++ params ++ "\x7d".toList

/-! ## Objects with blanks -/

/-- A member with blanks in front of its key and of its value. -/
structure SpacedMember where
  before : Text
  key : Text
  between : Text
  value : Json

def SpacedMember.text (m : SpacedMember) : Text :=
  m.before ++ '"' :: (m.key ++ '"' :: ':' :: (m.between ++ m.value.jsonTokFull))

/-- The object with these members. -/
def Json.spaced (members : List SpacedMember) : Json :=
  .object ('{' :: (commas (members.map SpacedMember.text) ++ ['}']))
    (members.map fun m => (m.key, m.value))

theorem commaSep_spaced {members : List SpacedMember}
    (blanks : ∀ m ∈ members, Blanks m.before ∧ Blanks m.between) :
    CommaSep MemberText (members.map fun m => (m.key, m.value))
      (commas (members.map SpacedMember.text)) := by
  induction members with
  | nil => exact .nil Blanks.nil
  | cons m members ih =>
      rw [List.forall_mem_cons] at blanks
      have member : MemberText (m.key, m.value)
          ('"' :: (m.key ++ '"' :: ':' :: (m.between ++ m.value.jsonTokFull))) :=
        ⟨[], m.between, Blanks.nil, blanks.1.2, rfl⟩
      cases members with
      | nil =>
          have one := CommaSep.single blanks.1.1 member Blanks.nil
          rwa [List.append_nil] at one
      | cons next members =>
          have more := CommaSep.cons blanks.1.1 member Blanks.nil (by simp) (ih blanks.2)
          simpa [commas, SpacedMember.text] using more

theorem Json.Encoded.spaced {members : List SpacedMember}
    (blanks : ∀ m ∈ members, Blanks m.before ∧ Blanks m.between)
    (fields : ∀ m ∈ members, KeyText m.key ∧ m.value.Encoded) : (Json.spaced members).Encoded := by
  have each : ∀ m ∈ members.map fun m : SpacedMember => (m.key, m.value),
      KeyText m.1 ∧ m.2.Encoded := by
    rw [List.forall_mem_map]
    exact fields
  exact .object (.object (fun m there => (each m there).1.1)
    (fun m there => (each m there).2.wellFormed) (commaSep_spaced blanks))
    (fun m there => (each m there).1) fun m there => (each m there).2

/-! ## The messages -/

/-- A message that the driver writes. -/
inductive DriverWrite where
  | request (id : Nat) (method : Text) (params : Json)
  | reflected (params : Json)

def DriverWrite.text : DriverWrite → Text
  | .request id method params => payzTesterCommandSend id method params.jsonTokFull
  | .reflected params => reflectedText params

/-- The parameters of a notification that comes back. -/
def payloadJson (params : Json) : Json :=
  .spaced [⟨[], "origin".toList, [' '], .string "payz".toList⟩,
    ⟨[' ', ' ', ' ', ' '], "payload".toList, [' '], params⟩]

def DriverWrite.json : DriverWrite → Json
  | .request id method params =>
      .spaced [⟨[], "jsonrpc".toList, [' '], .string "2.0".toList⟩,
        ⟨[' '], "id".toList, [' '], .primitive (formatU id)⟩,
        ⟨[' ', ' '], "method".toList, [' '], .string method⟩,
        ⟨[' '], "params".toList, [' '], params⟩]
  | .reflected params =>
      .spaced [⟨[], "jsonrpc".toList, [' '], .string "2.0".toList⟩,
        ⟨[' '], "method".toList, [' '], .string ecsSystemNotification⟩,
        ⟨[' '], "params".toList, [' ', ' ', ' ', ' '], payloadJson params⟩]

/-- What may be written: the method is not escaped. -/
def DriverWrite.Valid : DriverWrite → Prop
  | .request id method params => id < 2 ^ 64 ∧ KeyText method ∧ params.Encoded
  | .reflected params => params.Encoded

theorem DriverWrite.text_eq (written : DriverWrite) :
    written.text = written.json.jsonTokFull := by
  cases written with
  | request id method params =>
      have last : "\x7d".toList = ['}'] := by decide
      have first : "\x7b\"jsonrpc\": \"2.0\", \"id\": ".toList =
          '{' :: '"' :: ("jsonrpc".toList ++ '"' :: ':' :: ' ' :: '"' :: ("2.0".toList ++
            '"' :: ',' :: ' ' :: '"' :: ("id".toList ++ ['"', ':', ' ']))) := by decide
      have second : ",  \"method\": \"".toList =
          ',' :: ' ' :: ' ' :: '"' :: ("method".toList ++ ['"', ':', ' ', '"']) := by decide
      have third : "\", \"params\": ".toList =
          '"' :: ',' :: ' ' :: '"' :: ("params".toList ++ ['"', ':', ' ']) := by decide
      rw [text]
      unfold payzTesterCommandSend
      rw [first, second, third, last]
      simp only [json, Json.spaced, commas, SpacedMember.text, Json.jsonTokFull, List.map_cons,
        List.map_nil, List.append_assoc, List.cons_append, List.nil_append]
  | reflected params =>
      have first : "\x7b\"jsonrpc\": \"2.0\", \"method\": \"".toList =
          '{' :: '"' :: ("jsonrpc".toList ++ '"' :: ':' :: ' ' :: '"' :: ("2.0".toList ++
            '"' :: ',' :: ' ' :: '"' :: ("method".toList ++ ['"', ':', ' ', '"']))) := by decide
      have second :
          "\", \"params\":    \x7b\"origin\": \"payz\",    \"payload\": ".toList =
            '"' :: ',' :: ' ' :: '"' :: ("params".toList ++ '"' :: ':' :: ' ' :: ' ' :: ' ' ::
              ' ' :: '{' :: '"' :: ("origin".toList ++ '"' :: ':' :: ' ' :: '"' ::
                ("payz".toList ++ '"' :: ',' :: ' ' :: ' ' :: ' ' :: ' ' :: '"' ::
                  ("payload".toList ++ ['"', ':', ' '])))) := by decide
      have ends : "\x7d\x7d".toList = ['}', '}'] := by decide
      rw [text]
      unfold reflectedText
      rw [first, second, ends]
      simp only [json, payloadJson, Json.spaced, commas, SpacedMember.text, Json.jsonTokFull,
        List.map_cons, List.map_nil, List.append_assoc, List.cons_append, List.nil_append]

theorem DriverWrite.Valid.encoded {written : DriverWrite} (valid : written.Valid) :
    written.json.Encoded := by
  have version : (Json.string "2.0".toList).Encoded :=
    .string (KeyText.of_plain (by decide)).1 (KeyText.of_plain (by decide)).2
  have jsonrpc : KeyText "jsonrpc".toList := .of_plain (by decide)
  have method : KeyText "method".toList := .of_plain (by decide)
  have params : KeyText "params".toList := .of_plain (by decide)
  have none : Blanks [] := Blanks.nil
  have one : Blanks [' '] := by simp [Blanks, IsBlank]
  have two : Blanks [' ', ' '] := by simp [Blanks, IsBlank]
  have four : Blanks [' ', ' ', ' ', ' '] := by simp [Blanks, IsBlank]
  cases written with
  | request id name value =>
      refine .spaced ?_ ?_ <;> simp only [List.forall_mem_cons]
      · exact ⟨⟨none, one⟩, ⟨one, one⟩, ⟨two, one⟩, ⟨one, one⟩, List.forall_mem_nil _⟩
      · exact ⟨⟨jsonrpc, version⟩, ⟨.of_plain (by decide), .formatU id⟩,
          ⟨method, .string valid.2.1.1 valid.2.1.2⟩, ⟨params, valid.2.2⟩, List.forall_mem_nil _⟩
  | reflected value =>
      have name : KeyText ecsSystemNotification := .of_plain (by decide)
      have origin : KeyText "payz".toList := .of_plain (by decide)
      refine .spaced ?_ ?_ <;> simp only [List.forall_mem_cons]
      · exact ⟨⟨none, one⟩, ⟨one, one⟩, ⟨one, four⟩, List.forall_mem_nil _⟩
      · refine ⟨⟨jsonrpc, version⟩, ⟨method, .string name.1 name.2⟩,
          ⟨params, .spaced ?_ ?_⟩, List.forall_mem_nil _⟩ <;> simp only [List.forall_mem_cons]
        · exact ⟨⟨none, one⟩, ⟨four, one⟩, List.forall_mem_nil _⟩
        · exact ⟨⟨.of_plain (by decide), .string origin.1 origin.2⟩,
            ⟨.of_plain (by decide), valid⟩, List.forall_mem_nil _⟩

/-! ## How they are served -/

/-- The plugin has a handler for it. -/
def DriverWrite.Known (tables : LdTables) : DriverWrite → Prop
  | .request _ method _ => method ∈ tables.hookSubs ∨ method ∈ tables.commands
  | .reflected _ => ecsSystemNotification ∈ tables.notifSubs

/-- The call that it is to lead to, once the plugin is initialized. -/
def DriverWrite.call (tables : LdTables) : DriverWrite → LdCall
  | .request id method params =>
      ⟨match tables.hookSubs.findIdx? (· = method) with
        | some i => .hook i
        | none => .command (tables.commands.findIdx (· = method)), ⟨some id, method⟩, params⟩
  | .reflected params =>
      ⟨.notification (tables.notifSubs.findIdx (· = ecsSystemNotification)),
        ⟨none, ecsSystemNotification⟩, payloadJson params⟩

theorem jsonToU64_formatU {n : Nat} (bound : n < 2 ^ 64) :
    (Json.primitive (formatU n)).jsonToU64 = some n := by
  simp only [Json.jsonToU64, Json.jsonStrdup, strtoull_formatU bound]

theorem ldCommand_request {id : Nat} (bound : id < 2 ^ 64) (method : Text) (params : Json) :
    ldCommand (DriverWrite.request id method params).json =
      .ok (⟨some id, method⟩, .string method, params) := by
  have idtok : (DriverWrite.request id method params).json.jsonGetMember "id".toList =
      some (.primitive (formatU id)) := rfl
  have methtok : (DriverWrite.request id method params).json.jsonGetMember "method".toList =
      some (.string method) := rfl
  have paramstok : (DriverWrite.request id method params).json.jsonGetMember "params".toList =
      some params := rfl
  rw [ldCommand, methtok, paramstok, idtok]
  dsimp only
  rw [jsonToU64_formatU bound]
  rfl

theorem ldCommand_reflected (params : Json) :
    ldCommand (DriverWrite.reflected params).json =
      .ok (⟨none, ecsSystemNotification⟩, .string ecsSystemNotification, payloadJson params) := rfl

theorem findIdx?_of_mem {l : List Text} {a : Text} (member : a ∈ l) :
    l.findIdx? (· = a) = some (l.findIdx (· = a)) := by
  rw [List.findIdx?_eq_some_iff_findIdx_eq]
  exact ⟨List.findIdx_lt_length_of_exists ⟨a, member, decide_eq_true rfl⟩, rfl⟩

theorem ldCommandHandle_known {tables : LdTables} {written : DriverWrite}
    (valid : written.Valid) (known : written.Known tables) :
    ldCommandHandle tables ⟨true, true⟩ written.json =
      .ok (written.call tables, ⟨true, true⟩) := by
  cases written with
  | request id method params =>
      rw [ldCommandHandle, ldCommand_request valid.1]
      cases hook : tables.hookSubs.findIdx? (· = method) with
      | some i => simp [bind, Except.bind, DriverWrite.call, hook]
      | none =>
          have absent : method ∉ tables.hookSubs := fun member => by
            rw [findIdx?_of_mem member] at hook
            cases hook
          have command := findIdx?_of_mem (known.resolve_left absent)
          simp [bind, Except.bind, DriverWrite.call, hook, command]
  | reflected params =>
      rw [ldCommandHandle, ldCommand_reflected]
      have found := findIdx?_of_mem known
      simp [bind, Except.bind, DriverWrite.call, found]

theorem ldDispatch_known {tables : LdTables} {rest : List DriverWrite}
    (valid : ∀ w ∈ rest, w.Valid) (known : ∀ w ∈ rest, w.Known tables) :
    ldDispatch tables ⟨true, true⟩ (rest.map DriverWrite.json) =
      (rest.map (DriverWrite.call tables), ⟨true, true⟩, none) := by
  induction rest with
  | nil => rfl
  | cons w rest ih =>
      rw [List.forall_mem_cons] at valid known
      rw [List.map_cons, ldDispatch, ldCommandHandle_known valid.1 known.1]
      dsimp only
      rw [ih valid.2 known.2]
      rfl

theorem streamText_texts (writes : List DriverWrite) :
    streamText (writes.map fun w => ([], w.json)) [] = writes.flatMap DriverWrite.text := by
  induction writes with
  | nil => rfl
  | cons w writes ih =>
      rw [List.map_cons, streamText, ih, List.nil_append, List.flatMap_cons, w.text_eq]

/-- A driver that asks for the manifest, initializes the plugin and then writes only what the
    plugin has a handler for is served: each message leads to its call, in order, both flags are
    set, and neither reading nor dispatching is a reason to exit.  What the handlers do is their
    affair. -/
theorem driver_is_served {tables : LdTables} {i j : Nat} {p q : Json} {rest : List DriverWrite}
    {chunks : List Text}
    (valid : ∀ w ∈ .request i "getmanifest".toList p :: .request j "init".toList q :: rest,
      DriverWrite.Valid w) (known : ∀ w ∈ rest, w.Known tables)
    (nonempty : ∀ chunk ∈ chunks, chunk ≠ [])
    (stream : chunks.flatten = (.request i "getmanifest".toList p ::
      .request j "init".toList q :: rest).flatMap DriverWrite.text)
    (whole : WholeChunks [] chunks) {calls : List LdCall} {after : LdAfter}
    (run : ldReadAll tables .new chunks = some (calls, after)) :
    calls = ⟨.getmanifest, ⟨some i, "getmanifest".toList⟩, p⟩ ::
      ⟨.init, ⟨some j, "init".toList⟩, q⟩ :: rest.map (DriverWrite.call tables) ∧
      after.stage = ⟨true, true⟩ ∧ after.error = none := by
  rw [← streamText_texts] at stream
  have messages : ∀ m ∈ (.request i "getmanifest".toList p ::
      .request j "init".toList q :: rest).map fun w : DriverWrite => (([] : Text), w.json),
      ValidMessage m := by
    rw [List.forall_mem_map]
    intro w there
    have encoded := (valid w there).encoded
    cases w <;> exact encoded.message Blanks.nil
  have texts : ∀ m ∈ (.request i "getmanifest".toList p ::
      .request j "init".toList q :: rest).map fun w : DriverWrite => (([] : Text), w.json),
      MessageText m := fun m there => (messages m there).toMessageText
  have start : Settled _ [] chunks.flatten ⟨LdConn.new.parser, LdConn.new.buffer⟩ :=
    stream ▸ settled_framingInit texts
  have dispatched := ldReadAll_settled start messages Blanks.nil nonempty whole run
  rw [List.map_map] at dispatched
  simp only [List.forall_mem_cons] at valid
  obtain ⟨manifest, init, others⟩ := valid
  have first : ldCommandHandle tables ⟨false, false⟩
      (DriverWrite.request i "getmanifest".toList p).json =
        .ok (⟨.getmanifest, ⟨some i, "getmanifest".toList⟩, p⟩, ⟨true, false⟩) := by
    rw [ldCommandHandle, ldCommand_request manifest.1]
    rfl
  have second : ldCommandHandle tables ⟨true, false⟩
      (DriverWrite.request j "init".toList q).json =
        .ok (⟨.init, ⟨some j, "init".toList⟩, q⟩, ⟨true, true⟩) := by
    rw [ldCommandHandle, ldCommand_request init.1]
    rfl
  have later := ldDispatch_known others known
  have all : ldDispatch tables ⟨false, false⟩ ((.request i "getmanifest".toList p ::
      .request j "init".toList q :: rest).map DriverWrite.json) =
        (⟨.getmanifest, ⟨some i, "getmanifest".toList⟩, p⟩ ::
          ⟨.init, ⟨some j, "init".toList⟩, q⟩ :: rest.map (DriverWrite.call tables),
          ⟨true, true⟩, none) := by
    simp only [List.map_cons, ldDispatch, first, second, later]
  have same := all.symm.trans dispatched
  obtain ⟨called, left⟩ := Prod.mk.inj same
  exact ⟨called.symm, (Prod.mk.inj left).1.symm, (Prod.mk.inj left).2.symm⟩

/-- The parameters of `init` that `payz_tester_new` writes. -/
def testerInitParams (rpcDir : Text) : Json :=
  .tight [("configuration".toList, .tight [("lightning-dir".toList, .string (jsonEscape rpcDir)),
      ("rpc-file".toList, .string "lightning-rpc".toList),
      ("network".toList, .string "testnet".toList), ("feature_set".toList, .tight [])]),
    ("options".toList, .tight [])]

theorem testerInitParams_encoded {rpcDir : Text} (utf8 : Utf8Text rpcDir) :
    (testerInitParams rpcDir).Encoded := by
  have empty : (Json.tight []).Encoded := .tight (List.forall_mem_nil _) (List.forall_mem_nil _)
  have plain : ∀ {t : Text},
      (t.all fun c => c ≠ '"' ∧ c ≠ '\\' ∧ c ≠ '\x00' ∧ c.toNat < 128) = true →
      (Json.string t).Encoded := fun all => .string (KeyText.of_plain all).1 (KeyText.of_plain all).2
  have configuration : (Json.tight [("lightning-dir".toList, .string (jsonEscape rpcDir)),
      ("rpc-file".toList, .string "lightning-rpc".toList),
      ("network".toList, .string "testnet".toList), ("feature_set".toList, .tight [])]).Encoded := by
    refine .tight ?_ ?_ <;> simp only [List.forall_mem_cons]
    · exact ⟨.of_plain (by decide), .of_plain (by decide), .of_plain (by decide),
        .of_plain (by decide), List.forall_mem_nil _⟩
    · exact ⟨.escaped utf8, plain (by decide), plain (by decide), empty, List.forall_mem_nil _⟩
  refine .tight ?_ ?_ <;> simp only [List.forall_mem_cons]
  · exact ⟨.of_plain (by decide), .of_plain (by decide), List.forall_mem_nil _⟩
  · exact ⟨configuration, empty, List.forall_mem_nil _⟩

/-- The handshake as `payz_tester_new` makes it and a notification that comes back, cut inside two
    of the messages. -/
theorem driver_is_served_reflected :
    (ldReadAll ⟨[ecsSystemNotification], [], []⟩ .new
      [("\x7b\"jsonrpc\": \"2.0\", \"id\": 1,  \"method\": \"getmanifest\", " ++
          "\"params\": ").toList,
        ("\x7b\"allow-deprecated-apis\": true\x7d\x7d\x7b\"jsonrpc\": \"2.0\", \"id\": 2,  " ++
          "\"me").toList,
        ("thod\": \"init\", \"params\": \x7b\"configuration\":\x7b\"lightning-dir\":\"/tmp/t\"," ++
          "\"rpc-file\":\"lightning-rpc\",\"network\":\"testnet\",\"feature_set\":\x7b\x7d\x7d," ++
          "\"options\":\x7b\x7d\x7d\x7d").toList,
        ("\x7b\"jsonrpc\": \"2.0\", \"method\": \"payecs_system_invoke\", " ++
          "\"params\":    \x7b\"origin\": \"payz\",    \"payload\": \x7b\x7d\x7d\x7d").toList]).map
        (fun r => (r.1, r.2.stage, r.2.error)) =
      some ([⟨.getmanifest, ⟨some 1, "getmanifest".toList⟩,
          .spaced [⟨[], "allow-deprecated-apis".toList, [' '], .primitive "true".toList⟩]⟩,
        ⟨.init, ⟨some 2, "init".toList⟩, testerInitParams "/tmp/t".toList⟩,
        DriverWrite.call ⟨[ecsSystemNotification], [], []⟩ (.reflected (.tight []))],
        ⟨true, true⟩, none) := by
  have manifest : (Json.spaced
      [⟨[], "allow-deprecated-apis".toList, [' '], .primitive "true".toList⟩]).Encoded := by
    refine .spaced ?_ ?_ <;> rw [List.forall_mem_singleton]
    · exact ⟨Blanks.nil, by simp [Blanks, IsBlank]⟩
    · exact ⟨.of_plain (by decide), .primitive (.inr (.inl rfl))⟩
  have dir : Utf8Text "/tmp/t".toList := (KeyText.of_plain (by decide)).2
  have valid : ∀ w ∈ [DriverWrite.request 1 "getmanifest".toList (.spaced
      [⟨[], "allow-deprecated-apis".toList, [' '], .primitive "true".toList⟩]),
      .request 2 "init".toList (testerInitParams "/tmp/t".toList), .reflected (.tight [])],
      w.Valid := by
    simp only [List.forall_mem_cons]
    exact ⟨⟨by decide, .of_plain (by decide), manifest⟩,
      ⟨by decide, .of_plain (by decide), testerInitParams_encoded dir⟩,
      .tight (List.forall_mem_nil _) (List.forall_mem_nil _), List.forall_mem_nil _⟩
  have known : ∀ w ∈ [DriverWrite.reflected (.tight [])],
      w.Known ⟨[ecsSystemNotification], [], []⟩ :=
    List.forall_mem_singleton.mpr (List.mem_singleton_self _)
  cases arrives : ldReadAll ⟨[ecsSystemNotification], [], []⟩ .new _ with
  | none =>
      have fits := congrArg Option.isSome arrives
      revert fits
      decide +kernel
  | some run =>
      have served := driver_is_served valid known (by decide +kernel) (by decide +kernel)
        (fun front back split cut => by
          rcases front with _ | ⟨a, _ | ⟨b, _ | ⟨c, _ | ⟨d, rest⟩⟩⟩⟩
          · cases cut.1
          · obtain ⟨rfl, -⟩ := List.cons.inj split
            exact absurd cut.1 (by decide +kernel)
          · obtain ⟨rfl, more⟩ := List.cons.inj split
            obtain ⟨rfl, -⟩ := List.cons.inj more
            exact absurd cut.1 (by decide +kernel)
          · obtain ⟨rfl, more⟩ := List.cons.inj split
            obtain ⟨rfl, last⟩ := List.cons.inj more
            obtain ⟨rfl, -⟩ := List.cons.inj last
            exact absurd cut.1 (by decide +kernel)
          · obtain ⟨-, more⟩ := List.cons.inj split
            obtain ⟨-, more⟩ := List.cons.inj more
            obtain ⟨-, more⟩ := List.cons.inj more
            obtain ⟨-, more⟩ := List.cons.inj more
            obtain ⟨-, rfl⟩ := List.append_eq_nil_iff.mp more.symm
            exact cut.2 trivial) arrives
      exact congrArg some (Prod.ext served.1 (Prod.ext served.2.1 served.2.2))

end Payz
