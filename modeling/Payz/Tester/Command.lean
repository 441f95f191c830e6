import Payz.Json.Channel
import Payz.Json.Escape
import Payz.Json.Scan
import Payz.Plugin.Output

/-! # The test driver at the other end of the pipe

`payz_tester_command_check` with `payz_tester_command_process` in
`plugins/payz/tester/command.c`, reading what the plugin writes.  A call of `write_timed` writes
all of its text, and nothing times out.
-/

namespace Payz

open Layout

def Json.jsonTokStreq : Json → Text → Bool
  | .string raw, str => raw == str
  | _, _ => false

/-- Why the driver ends: `errx` is called, or an assertion fails. -/
inductive CommandError where
  | eof
  | malformed (buffer : Text)
  | noMethod (toks : Json)
  | noParams (toks : Json)
  | log (error : Text)
  | abort
  deriving Repr, DecidableEq

/-- The queues of `struct payz_tester_command`, with what has been written to the plugin and what
    has been printed. -/
structure CommandQueues where
  responses : List Json
  notifs : List Json
  toStdin : List Text
  stdout : Text
  deriving Repr, DecidableEq

structure PayzTesterCommand where
  framing : Framing
  queues : CommandQueues
  deriving Repr, DecidableEq

/-- `payz_tester_command_new`. -/
def PayzTesterCommand.new : PayzTesterCommand := ⟨framingInit, ⟨[], [], [], []⟩⟩

def ecsSystemNotification : Text := "payecs_system_invoke".toList

/-- The notification that goes back to the plugin, with what lightningd adds to it. -/
def reflectedText (params : Json) : Text :=
  "\x7b\"jsonrpc\": \"2.0\", \"method\": \"".toList ++ ecsSystemNotification ++
    "\", \"params\":    \x7b\"origin\": \"payz\",    \"payload\": ".toList ++ params.jsonTokFull ++
    "\x7d\x7d".toList

/-- `JSON_SCAN_TAL` with `json_strdup`. -/
def scanStrdup : ScanArg Text where
  fmtname := "json_strdup".toList
  fmt erange tok := (some tok.jsonStrdup, erange)

def logLine (level message : Text) : Text := level ++ ": ".toList ++ message ++ ['\n']

def payzTesterCommandProcess (queues : CommandQueues) (toks : Json) :
    Except CommandError CommandQueues :=
  match toks.jsonGetMember "id".toList with
  | some _ => .ok { queues with responses := queues.responses ++ [toks] }
  | none =>
      match toks.jsonGetMember "method".toList, toks.jsonGetMember "params".toList with
      | none, _ => .error (.noMethod toks)
      | some _, none => .error (.noParams toks)
      | some method, some params =>
          if method.jsonTokStreq "log".toList then
            -- the guide has no index, so that `errno` does not matter
            match jsonScan false params "\x7blevel:%,message:%\x7d".toList
                [scanStrdup, scanStrdup] with
            | some (none, [level, message]) =>
                .ok { queues with stdout := queues.stdout ++ logLine level message }
            | some (some error, _) => .error (.log error)
            | _ => .error .abort
          else
            .ok { queues with
              notifs := queues.notifs ++ [toks]
              toStdin :=
                if method.jsonTokStreq ecsSystemNotification then
                  queues.toStdin ++ [reflectedText params]
                else queues.toStdin }

/-- The loop of `payz_tester_command_check`. -/
def payzTesterCommandLoop : Nat → JsmnParser → Text → CommandQueues →
    Except CommandError PayzTesterCommand
  | 0, _, buffer, _ => .error (.malformed buffer)
  | fuel + 1, parser, buffer, queues =>
      match jsonParseBytes parser buffer with
      | .invalid => .error (.malformed buffer)
      | .incomplete parser => .ok ⟨⟨parser, buffer⟩, queues⟩
      | .complete json toks =>
          match toks with
          -- a single token, the one behind the last
          | [] => .ok ⟨framingInit, queues⟩
          | root :: _ => do
              let queues ← payzTesterCommandProcess queues json
              let rest := buffer.drop (root.stop.getD 0)
              if rest = [] then .ok ⟨framingInit, queues⟩
              else payzTesterCommandLoop fuel jsmnInit rest queues

/-- `payz_tester_command_check`, with what it calls; `payzTesterCommandCheck` is its framing. -/
def PayzTesterCommand.check (command : PayzTesterCommand) (tmpbuf : Text) :
    Except CommandError PayzTesterCommand :=
  if tmpbuf = [] then .error .eof
  else
    let buffer := command.framing.buffer ++ tmpbuf
    payzTesterCommandLoop (buffer.length + 1) command.framing.parser buffer command.queues

/-- The messages are processed in the order in which they are framed. -/
theorem payzTesterCommandLoop_eq {fuel : Nat} {parser : JsmnParser} {buffer : Text}
    {framed : List Framed} {s : Framing} (run : framingLoop fuel parser buffer = some (framed, s))
    (queues : CommandQueues) :
    payzTesterCommandLoop fuel parser buffer queues =
      (List.foldlM payzTesterCommandProcess queues (framed.map Framed.json)).map (⟨s, ·⟩) := by
  induction fuel generalizing parser buffer framed s queues with
  | zero => cases run
  | succ fuel ih =>
      rw [framingLoop] at run
      rw [payzTesterCommandLoop]
      cases parsed : jsonParseBytes parser buffer with
      | invalid =>
          rw [parsed] at run
          cases run
      | incomplete parser =>
          rw [parsed] at run
          cases run
          rfl
      | complete json toks =>
          rw [parsed] at run
          cases toks with
          | nil =>
              cases run
              rfl
          | cons root toks =>
              dsimp only at run ⊢
              split_ifs at run ⊢ with done
              · cases run
                simp only [List.map_cons, List.map_nil, List.foldlM_cons, List.foldlM_nil]
                cases payzTesterCommandProcess queues json <;> rfl
              · rw [Option.map_eq_some_iff] at run
                obtain ⟨⟨framed, s⟩, rest, same⟩ := run
                cases same
                simp only [List.map_cons, List.foldlM_cons]
                cases payzTesterCommandProcess queues json with
                | error => rfl
                | ok queues => exact ih rest queues

/-! ## What is made of the messages -/

def LdSent.response : LdSent → Option Json
  | .result id value => some (LdSent.result id value).json
  | .error id value => some (LdSent.error id value).json
  | .notification .. | .log .. => none

def LdSent.notif : LdSent → Option Json
  | .notification method params => some (LdSent.notification method params).json
  | .result .. | .error .. | .log .. => none

def LdSent.reflected : LdSent → Option Text
  | .notification method params =>
      if jsonEscape method = ecsSystemNotification then some (reflectedText (.tight params)) else none
  | .result .. | .error .. | .log .. => none

def LdSent.printed : LdSent → Text
  | .log level message => logLine level.text (jsonEscape message)
  | .result .. | .error .. | .notification .. => []

/-- What the driver is to have after these messages. -/
def heard (taken : List LdSent) : CommandQueues where
  responses := taken.filterMap LdSent.response
  notifs := taken.filterMap LdSent.notif
  toStdin := taken.filterMap LdSent.reflected
  stdout := taken.flatMap LdSent.printed

theorem jsonEscape_ne_log {method : Text} (other : method ≠ "log".toList) :
    jsonEscape method ≠ "log".toList := fun same => by
  have unescaped := jsonEscapeUnescape_jsonEscape method
  rw [same, show jsonEscapeUnescape "log".toList = some "log".toList by decide] at unescaped
  split_ifs at unescaped
  exact other (Option.some.inj unescaped).symm

def logGuide : Guide Text :=
  .node .obj (.more (.member "level".toList) (.leaf (.percent scanStrdup))
    (.last (.member "message".toList) (.leaf (.percent scanStrdup))))

theorem jsonScan_log (level message : Text) :
    jsonScan false (.tight [("level".toList, .string level), ("message".toList, .string message)])
      "\x7blevel:%,message:%\x7d".toList [scanStrdup, scanStrdup] = some (none, [level, message]) := by
  have literal : ∀ text : Text, text.all isLiteral = true → ∀ c ∈ text, isLiteral c = true :=
    fun _ all => List.all_eq_true.mp all
  have valid : logGuide.Valid :=
    ⟨literal "level".toList (by decide), trivial, literal "message".toList (by decide), trivial⟩
  have taken : takeAll false (.tight [("level".toList, .string level),
      ("message".toList, .string message)]) (logGuide.ways []) =
        .passed [level, message] false := rfl
  have scanned := jsonScan_eq false (.tight [("level".toList, .string level),
    ("message".toList, .string message)]) valid nofun
  rw [taken] at scanned
  exact scanned

theorem payzTesterCommandProcess_heard (taken : List LdSent) {sent : LdSent} (valid : sent.Valid) :
    payzTesterCommandProcess (heard taken) sent.json = .ok (heard (taken ++ [sent])) := by
  cases sent with
  | result id value =>
      have response : (LdSent.result id value).json.jsonGetMember "id".toList =
          some (.primitive (formatU id)) := rfl
      rw [payzTesterCommandProcess, response]
      simp [heard, LdSent.response, LdSent.notif, LdSent.reflected, LdSent.printed]
  | error id value =>
      have response : (LdSent.error id value).json.jsonGetMember "id".toList =
          some (.primitive (formatU id)) := rfl
      rw [payzTesterCommandProcess, response]
      simp [heard, LdSent.response, LdSent.notif, LdSent.reflected, LdSent.printed]
  | notification method params =>
      have noId : (LdSent.notification method params).json.jsonGetMember "id".toList = none := rfl
      have name : (LdSent.notification method params).json.jsonGetMember "method".toList =
          some (.string (jsonEscape method)) := rfl
      have fields : (LdSent.notification method params).json.jsonGetMember "params".toList =
          some (.tight params) := rfl
      have other : (Json.string (jsonEscape method)).jsonTokStreq "log".toList = false :=
        beq_eq_false_iff_ne.mpr (jsonEscape_ne_log valid.2.1)
      rw [payzTesterCommandProcess, noId, name, fields]
      dsimp only
      rw [other]
      by_cases system : jsonEscape method = ecsSystemNotification <;>
        simp [heard, LdSent.response, LdSent.notif, LdSent.reflected, LdSent.printed,
          Json.jsonTokStreq, system]
  | log level message =>
      have noId : (LdSent.log level message).json.jsonGetMember "id".toList = none := rfl
      have name : (LdSent.log level message).json.jsonGetMember "method".toList =
          some (.string "log".toList) := rfl
      have fields : (LdSent.log level message).json.jsonGetMember "params".toList =
          some (.tight [("level".toList, .string level.text),
            ("message".toList, .string (jsonEscape message))]) := rfl
      have log : (Json.string "log".toList).jsonTokStreq "log".toList = true := by decide
      rw [payzTesterCommandProcess, noId, name, fields]
      dsimp only
      rw [log, if_pos rfl, jsonScan_log]
      simp [heard, LdSent.response, LdSent.notif, LdSent.reflected, LdSent.printed]

theorem heard_run (taken : List LdSent) {more : List LdSent} (valid : ∀ sent ∈ more, sent.Valid) :
    List.foldlM payzTesterCommandProcess (heard taken) (more.map LdSent.json) =
      .ok (heard (taken ++ more)) := by
  induction more generalizing taken with
  | nil => simp [pure, Except.pure]
  | cons sent more ih =>
      rw [List.forall_mem_cons] at valid
      rw [List.map_cons, List.foldlM_cons, payzTesterCommandProcess_heard taken valid.1]
      have rest := ih (taken ++ [sent]) valid.2
      rw [List.append_assoc] at rest
      exact rest

/-! ## Sessions -/

/-- The writer of the plugin, what has been written and not been read, and the driver. -/
structure Session where
  writer : LdWriter
  unread : Text
  command : Except CommandError PayzTesterCommand

def Session.new : Session := ⟨.new, [], .ok .new⟩

/-- What the plugin and its loop do, and reads of the driver. -/
inductive SessionAct where
  | send (call : LdSend)
  | exit
  | always
  | write (n : Nat)
  | read (n : Nat)

/-- The driver reads some bytes, `sizeof(tmpbuf)` at most. -/
def Session.read (s : Session) (n : Nat) : Option Session :=
  match s.command with
  | .error _ => none
  | .ok command =>
      if n = 0 ∨ 4096 < n ∨ s.unread.length < n then none
      else some { s with
        unread := s.unread.drop n
        command := command.check (s.unread.take n) }

/-- The writer takes a step, and what it writes goes into the pipe. -/
def Session.write (s : Session) (act : WriteAct) : Option Session :=
  (s.writer.step act).map fun w =>
    { s with writer := w, unread := s.unread ++ w.written.drop s.writer.written.length }

/-- One step, if it can be made. -/
def Session.step (s : Session) : SessionAct → Option Session
  | .read n => s.read n
  | .send call => s.write (.send call.text)
  | .exit => s.write .exit
  | .always => s.write .always
  | .write n => s.write (.write n)

/-- A read of `n` bytes does not end inside a primitive. -/
def Session.Whole (s : Session) (n : Nat) : Prop :=
  ∀ command, s.command = .ok command →
    ¬ CutsPrimitive (command.framing.buffer ++ s.unread.take n)
      (s.unread.drop n ++ s.writer.pending)

/-- Steps from one state to another, with no read that ends inside a primitive. -/
abbrev SessionRun : Session → List SessionAct → Session → Prop :=
  Runs.Run fun s act s' => s.step act = some s' ∧ ∀ n, act = .read n → s.Whole n

def sentIn (acts : List SessionAct) : List LdSent :=
  acts.filterMap fun
    | .send call => some call.sent
    | _ => none

def ValidActs (acts : List SessionAct) : Prop := ∀ call, .send call ∈ acts → LdSend.Valid call

/-- The driver has heard the first of the messages, and the others are on their way. -/
structure Session.Sound (sent : List LdSent) (s : Session) : Prop where
  writer : s.writer.Sound
  command : ∃ taken later framing, sent = taken ++ later ∧ s.command = .ok ⟨framing, heard taken⟩ ∧
    Carried (sent.map LdSent.json) (taken.map LdSent.json) (s.unread ++ s.writer.pending) framing

theorem Session.sound_new : Session.new.Sound [] :=
  ⟨LdWriter.sound_new, [], [], framingInit, rfl, rfl, Carried.nil⟩

theorem Session.write_pending {s s' : Session} {act : WriteAct} (sound : s.writer.Sound)
    (takes : s.write act = some s') :
    s'.writer.Sound ∧ s'.command = s.command ∧
      s'.unread ++ s'.writer.pending = s.unread ++ s.writer.pending ++ sentBy [act] := by
  rw [Session.write, Option.map_eq_some_iff] at takes
  obtain ⟨w, stepped, rfl⟩ := takes
  obtain ⟨more, written⟩ := LdWriter.step_written stepped
  have kept := LdWriter.step_pending sound stepped
  rw [← written, List.append_assoc, List.append_assoc, List.append_cancel_left_eq] at kept
  refine ⟨sound.step stepped, rfl, ?_⟩
  dsimp only
  rw [← written, List.drop_left, List.append_assoc, kept, List.append_assoc]

theorem Session.Sound.quiet {s s' : Session} {sent : List LdSent} {act : WriteAct}
    (sound : s.Sound sent) (silent : sentBy [act] = []) (takes : s.write act = some s') :
    s'.Sound sent := by
  obtain ⟨writer, command, pipe⟩ := Session.write_pending sound.writer takes
  rw [silent, List.append_nil] at pipe
  obtain ⟨taken, later, framing, split, state, carried⟩ := sound.command
  exact ⟨writer, taken, later, framing, split, command.trans state, pipe ▸ carried⟩

theorem Session.Sound.send {s s' : Session} {past : List LdSent} {call : LdSend}
    (sound : s.Sound past) (valid : call.Valid) (takes : s.write (.send call.text) = some s') :
    s'.Sound (past ++ [call.sent]) := by
  rw [LdSend.text_eq valid] at takes
  obtain ⟨writer, command, pipe⟩ := Session.write_pending sound.writer takes
  obtain ⟨taken, later, framing, split, state, carried⟩ := sound.command
  have text : sentBy [.send call.sent.text] = call.sent.json.jsonTokFull ++ ['\n', '\n'] :=
    List.append_nil _
  have twoFeeds : Blanks ['\n', '\n'] := by simp [Blanks, IsBlank]
  have further := carried.send valid.sent.encoded twoFeeds
  refine ⟨writer, taken, later ++ [call.sent], framing, ?_, command.trans state, ?_⟩
  · rw [split, List.append_assoc]
  · rw [pipe, text, List.map_append]
    exact further

theorem Session.Sound.read {s s' : Session} {sent : List LdSent} {n : Nat} (sound : s.Sound sent)
    (valid : ∀ m ∈ sent, m.Valid) (whole : s.Whole n) (takes : s.read n = some s') :
    s'.Sound sent := by
  obtain ⟨taken, later, framing, rfl, state, carried⟩ := sound.command
  rw [Session.read, state] at takes
  dsimp only at takes
  split_ifs at takes with refused
  cases takes
  rw [not_or, not_or] at refused
  have nonempty : s.unread.take n ≠ [] := fun empty => by
    have := congrArg List.length empty
    rw [List.length_take, List.length_nil] at this
    omega
  have pipe : s.unread ++ s.writer.pending =
      s.unread.take n ++ (s.unread.drop n ++ s.writer.pending) := by
    rw [← List.append_assoc, List.take_append_drop]
  rw [pipe] at carried
  obtain ⟨done, framing', framed, carried'⟩ := carried.read nonempty (whole _ state)
  obtain ⟨waiting, last, split, -⟩ := carried'.waits
  rw [List.map_append, List.append_assoc, List.append_cancel_left_eq] at split
  obtain ⟨front, back, rfl, taken', -⟩ := List.map_eq_append_iff.mp split
  refine ⟨sound.writer, taken ++ front, back, framing', (List.append_assoc ..).symm, ?_, ?_⟩
  · have run := heard_run taken fun m (there : m ∈ front) =>
      valid m (List.mem_append_right _ (List.mem_append_left _ there))
    rw [PayzTesterCommand.check, if_neg nonempty]
    dsimp only
    rw [payzTesterCommandLoop_eq framed, List.map_map]
    have same : done.map (Framed.json ∘ frame) = front.map LdSent.json := taken'.symm
    rw [same, run]
    rfl
  · have now : (taken ++ front).map LdSent.json = taken.map LdSent.json ++ done.map Prod.snd := by
      rw [List.map_append, taken']
    rw [now]
    exact carried'

theorem sentIn_append (first second : List SessionAct) :
    sentIn (first ++ second) = sentIn first ++ sentIn second := List.filterMap_append

theorem ValidActs.sentIn {acts : List SessionAct} (valid : ValidActs acts) :
    ∀ sent ∈ sentIn acts, sent.Valid := by
  intro sent member
  obtain ⟨act, there, same⟩ := List.mem_filterMap.mp member
  cases act with
  | send call =>
      cases same
      exact (valid call there).sent
  | exit | always | write | read => cases same

theorem Session.Sound.step {past : List SessionAct} {s s' : Session} {act : SessionAct}
    (sound : s.Sound (sentIn past)) (valid : ValidActs (past ++ [act]))
    (whole : ∀ n, act = .read n → s.Whole n) (takes : s.step act = some s') :
    s'.Sound (sentIn (past ++ [act])) := by
  have all := valid.sentIn
  rw [sentIn_append] at all ⊢
  cases act with
  | send call =>
      exact sound.send (valid call (List.mem_append_right _ (List.mem_singleton_self _))) takes
  | exit =>
      rw [show sentIn [.exit] = [] from rfl, List.append_nil]
      exact sound.quiet rfl takes
  | always =>
      rw [show sentIn [.always] = [] from rfl, List.append_nil]
      exact sound.quiet rfl takes
  | write n =>
      rw [show sentIn [.write n] = [] from rfl, List.append_nil]
      exact sound.quiet rfl takes
  | read n =>
      rw [show sentIn [.read n] = [] from rfl, List.append_nil] at all ⊢
      exact sound.read all (whole n rfl) takes

open Runs in
theorem SessionRun.sound {acts : List SessionAct} {s : Session}
    (run : SessionRun .new acts s) (valid : ValidActs acts) : s.Sound (sentIn acts) := by
  have start : ValidActs [] → Session.new.Sound (sentIn []) := fun _ => Session.sound_new
  have all := Run.history (P := fun past s => ValidActs past → s.Sound (sentIn past))
    (fun past s act s' known takes valid => ?_) run start
  · exact all valid
  · have before : ValidActs past := fun call there => valid call (List.mem_append_left _ there)
    exact (known before).step valid takes.2 takes.1

/-- However the plugin sends, its loop writes and the driver reads: the driver does not fail, and
    has made of the first messages sent what it is to make of them; and all of them have come
    when nothing is left to be written or read. -/
theorem driver_hears_what_is_sent {acts : List SessionAct} {s : Session} (valid : ValidActs acts)
    (run : SessionRun .new acts s) :
    ∃ taken framing, taken <+: sentIn acts ∧ s.command = .ok ⟨framing, heard taken⟩ ∧
      (s.unread = [] → s.writer.exiting = false → ¬ s.writer.Busy → taken = sentIn acts) := by
  obtain ⟨writer, taken, later, framing, split, state, carried⟩ := run.sound valid
  refine ⟨taken, framing, ⟨later, split.symm⟩, state, fun empty running idle => ?_⟩
  rw [empty, writer.idle running idle, split, List.map_append] at carried
  have none := List.append_cancel_left (carried.drained.trans (List.append_nil _).symm)
  rw [split, List.map_eq_nil_iff.mp none, List.append_nil]

/-- The response to a request, written in two parts and read at once. -/
theorem driver_hears_what_is_sent_one : ∃ s framing,
    SessionRun .new [.send (.success 1 (.tight [])), .always, .write 20, .write 18, .read 38] s ∧
      s.command = .ok ⟨framing, ⟨[(LdSent.result 1 (.tight [])).json], [], [], []⟩⟩ := by
  have valid : ValidActs
      [.send (.success 1 (.tight [])), .always, .write 20, .write 18, .read 38] := by
    intro call there
    rw [List.mem_cons] at there
    rcases there with same | later
    · cases same
      exact .tight nofun nofun
    · simp at later
  have whole : ∀ n, SessionAct.read 38 = .read n →
      Session.Whole ⟨⟨[], .waiting .ioOut, false, false,
        (LdSend.success 1 (.tight [])).text.take 20 ++
          ((LdSend.success 1 (.tight [])).text.drop 20).take 18⟩,
        (LdSend.success 1 (.tight [])).text, .ok .new⟩ n := by
    rintro n same command state ⟨inside, -⟩
    cases same
    cases state
    revert inside
    decide +kernel
  have run : SessionRun .new
      [.send (.success 1 (.tight [])), .always, .write 20, .write 18, .read 38] _ :=
    .cons ⟨rfl, nofun⟩ (.cons ⟨rfl, nofun⟩ (.cons ⟨rfl, nofun⟩ (.cons ⟨rfl, nofun⟩
      (.cons ⟨rfl, whole⟩ .nil))))
  obtain ⟨taken, framing, -, state, all⟩ := driver_hears_what_is_sent valid run
  have idle : ¬ LdWriter.Busy ⟨[], .waiting .ioOut, false, false,
      (LdSend.success 1 (.tight [])).text.take 20 ++
        ((LdSend.success 1 (.tight [])).text.drop 20).take 18⟩ := by
    simp [LdWriter.Busy, LdWriter.step]
  rw [all rfl rfl idle] at state
  exact ⟨_, framing, run, state⟩

end Payz
