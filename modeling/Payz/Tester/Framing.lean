import Payz.Json.Utf8

/-! # The framing loops of the tests

`payz_tester_rpc_conn_feed` in `plugins/payz/tester/rpc.c` and `payz_tester_command_check` in
`plugins/payz/tester/command.c`: bytes are appended to a buffer, and each message that is
complete is processed and cut off.
-/

namespace Payz

/-- The parser state of a connection or a command; the tokens are in the parser. -/
structure Framing where
  parser : JsmnParser
  buffer : Text
  deriving Repr, DecidableEq

/-- As `payz_tester_rpc_conn_new` and `payz_tester_command_new` set it up. -/
def framingInit : Framing := ⟨jsmnInit, []⟩

/-- A message as it is processed: what it denotes, and its tokens. -/
structure Framed where
  json : Json
  toks : List JsmnTok
  deriving Repr, DecidableEq

/-- The loop, with the messages it processes; `none` where it reports malformed JSON text.
    Each message takes at least one byte, so one more than the length of the buffer is enough
    fuel. -/
def framingLoop : Nat → JsmnParser → Text → Option (List Framed × Framing)
  | 0, _, _ => none
  | fuel + 1, parser, buffer =>
      match jsonParseBytes parser buffer with
      | .invalid => none
      | .incomplete parser => some ([], ⟨parser, buffer⟩)
      | .complete json toks =>
          match toks with
          -- a single token, the one behind the last
          | [] => some ([], framingInit)
          | root :: _ =>
              let rest := buffer.drop (root.stop.getD 0)
              if rest = [] then some ([⟨json, toks⟩], framingInit)
              else (framingLoop fuel jsmnInit rest).map fun (framed, s) =>
                (⟨json, toks⟩ :: framed, s)

def payzTesterRpcConnFeed (conn : Framing) (buffer : Text) : Option (List Framed × Framing) :=
  framingLoop ((conn.buffer ++ buffer).length + 1) conn.parser (conn.buffer ++ buffer)

/-- `payz_tester_command_check` on the bytes it reads; there are none only at the end of the
    file. -/
def payzTesterCommandCheck (command : Framing) (tmpbuf : Text) :
    Option (List Framed × Framing) :=
  if tmpbuf = [] then none
  else framingLoop ((command.buffer ++ tmpbuf).length + 1) command.parser (command.buffer ++ tmpbuf)

def feedAll (feed : Framing → Text → Option (List Framed × Framing)) :
    Framing → List Text → Option (List Framed)
  | _, [] => some []
  | s, chunk :: chunks =>
      match feed s chunk with
      | none => none
      | some (framed, s) => (feedAll feed s chunks).map fun more => framed ++ more

end Payz
