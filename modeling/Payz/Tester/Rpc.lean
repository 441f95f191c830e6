import Mathlib.Data.List.Sort
import Mathlib.Logic.Function.Basic
import Payz.Json.Out

/-! # The RPC emulator of the tests

`plugins/payz/tester/rpc.c`, from a request that has been parsed to the response that is
written.  Responses wait in a queues object, requests in the connection they came over.
A map from method names to lists is a function here, since a missing list and an empty
one are treated alike.
-/

namespace Payz

/-- `struct payz_tester_rpc_response`, with its address. -/
structure PayzTesterRpcResponse where
  address : Nat
  error : Bool
  data : Text
  message : Option Text
  code : Int
  deriving Repr, DecidableEq

/-- `struct payz_tester_rpc_queues`, with its address. -/
structure PayzTesterRpcQueues where
  address : Nat
  responses : Text → List PayzTesterRpcResponse

/-- `struct payz_tester_rpc_conn`, with its address; `queues` points to a queues object.
    Of a request there is its `id`. -/
structure PayzTesterRpcConn where
  address : Nat
  queues : Nat
  fd : Int
  requests : Text → List Nat

/-- `struct payz_tester_rpc`: the connections in the order of their file descriptors, and
    the address of the next object. -/
structure PayzTesterRpc where
  queues : PayzTesterRpcQueues
  conns : List PayzTesterRpcConn
  next : Nat

def payzTesterRpcNew : PayzTesterRpc := ⟨⟨0, fun _ => []⟩, [], 1⟩

/-- What is seen of a step: a request that arrives over a connection, a response that is
    added, a response that is written to a connection, or the queues object replaced. -/
inductive RpcObservation where
  | arrived (conn : Nat) (method : Text) (id : Nat)
  | added (method : Text) (response : PayzTesterRpcResponse)
  | written (conn : Nat) (method : Text) (id : Nat) (response : PayzTesterRpcResponse)
      (text : Text)
  | cleared
  deriving Repr, DecidableEq

/-- What `listconfigs` is answered with. -/
def listconfigs : Text := "\x7b \"max-locktime-blocks\": 2016\x7d".toList

/-- The text that `payz_tester_rpc_resolve` writes. -/
def payzTesterRpcResolveText (id : Nat) (response : PayzTesterRpcResponse) : Text :=
  if response.error then
    "\x7b\"jsonrpc\": \"2.0\", \"id\": ".toList ++ formatU id ++
      ",  \"error\": \x7b\"code\": ".toList ++ formatD response.code ++
      ",              \"data\": ".toList ++ response.data ++
      ", \"message\": ".toList ++ response.message.getD [] ++ "\x7d\x7d\n\n".toList
  else
    "\x7b\"jsonrpc\": \"2.0\", \"id\": ".toList ++ formatU id ++
      ",  \"result\": ".toList ++ response.data ++ "\x7d\n\n".toList

def payzTesterRpcResolve (conn : PayzTesterRpcConn) (method : Text) (id : Nat)
    (response : PayzTesterRpcResponse) : RpcObservation :=
  .written conn.address method id response (payzTesterRpcResolveText id response)

def payzTesterRpcQueuesPop (queues : PayzTesterRpcQueues) (method : Text) :
    Option (PayzTesterRpcResponse × PayzTesterRpcQueues) :=
  match queues.responses method with
  | [] => none
  | response :: rest =>
      some (response, { queues with responses := Function.update queues.responses method rest })

def payzTesterRpcQueuesPush (queues : PayzTesterRpcQueues) (method : Text)
    (response : PayzTesterRpcResponse) : PayzTesterRpcQueues :=
  { queues with
    responses := Function.update queues.responses method (queues.responses method ++ [response]) }

def payzTesterRpcConnAddRequest (conn : PayzTesterRpcConn) (method : Text) (id : Nat) :
    PayzTesterRpcConn :=
  { conn with requests := Function.update conn.requests method (conn.requests method ++ [id]) }

/-- `payz_tester_rpc_conn_tryrespond`, up to the call that writes the response. -/
def payzTesterRpcConnTryrespond (conn : PayzTesterRpcConn) (method : Text) :
    Option (Nat × PayzTesterRpcConn) :=
  match conn.requests method with
  | [] => none
  | id :: rest => some (id, { conn with requests := Function.update conn.requests method rest })

/-- The connection that waits for the response, the first one by file descriptor. -/
def payzTesterRpcFirstWaiting (method : Text) :
    List PayzTesterRpcConn → Option (PayzTesterRpcConn × Nat × List PayzTesterRpcConn)
  | [] => none
  | conn :: conns =>
      match payzTesterRpcConnTryrespond conn method with
      | some (id, conn') => some (conn, id, conn' :: conns)
      | none => (payzTesterRpcFirstWaiting method conns).map fun (found, id, conns) =>
          (found, id, conn :: conns)

def payzTesterRpcAddResponseObj (rpc : PayzTesterRpc) (method : Text)
    (response : PayzTesterRpcResponse) : PayzTesterRpc × List RpcObservation :=
  match payzTesterRpcFirstWaiting method rpc.conns with
  | some (conn, id, conns) => ({ rpc with conns := conns },
      [.added method response, payzTesterRpcResolve conn method id response])
  | none => ({ rpc with queues := payzTesterRpcQueuesPush rpc.queues method response },
      [.added method response])

def payzTesterRpcAddResponse (rpc : PayzTesterRpc) (method data : Text) :
    PayzTesterRpc × List RpcObservation :=
  payzTesterRpcAddResponseObj { rpc with next := rpc.next + 1 } method
    ⟨rpc.next, false, data, none, 0⟩

def payzTesterRpcAddError (rpc : PayzTesterRpc) (method : Text) (code : Int)
    (message data : Text) : PayzTesterRpc × List RpcObservation :=
  payzTesterRpcAddResponseObj { rpc with next := rpc.next + 1 } method
    ⟨rpc.next, true, data, some message, code⟩

/-- `payz_tester_rpc_clear`: connections keep the pointer they have. -/
def payzTesterRpcClear (rpc : PayzTesterRpc) : PayzTesterRpc × List RpcObservation :=
  ({ rpc with queues := ⟨rpc.next, fun _ => []⟩, next := rpc.next + 1 }, [.cleared])

/-- `payz_tester_rpc_conn_new`, for the file descriptor of a new connection. -/
def payzTesterRpcListenfd (rpc : PayzTesterRpc) (newfd : Int) : PayzTesterRpc :=
  let conn : PayzTesterRpcConn := ⟨rpc.next, rpc.queues.address, newfd, fun _ => []⟩
  { rpc with
    conns := rpc.conns.orderedInsert (fun c d => c.fd ≤ d.fd) conn
    next := rpc.next + 1 }

/-- The end of a connection, in `payz_tester_rpc_fd`. -/
def payzTesterRpcClose (rpc : PayzTesterRpc) (fd : Int) : PayzTesterRpc :=
  { rpc with conns := rpc.conns.filter fun conn => conn.fd ≠ fd }

/-- `payz_tester_rpc_conn_process` on a request for `method`.  Where the connection points
    to a queues object that is no more, `freed` is what reading it comes to. -/
def payzTesterRpcConnProcess (rpc : PayzTesterRpc) (conn : PayzTesterRpcConn) (method : Text)
    (id : Nat) (freed : Option PayzTesterRpcResponse) : PayzTesterRpc × List RpcObservation :=
  let arrived : RpcObservation := .arrived conn.address method id
  let waits : PayzTesterRpc × List RpcObservation :=
    ({ rpc with conns := rpc.conns.map fun c =>
        if c.fd = conn.fd then payzTesterRpcConnAddRequest c method id else c }, [arrived])
  if method = "listconfigs".toList then
    ({ rpc with next := rpc.next + 1 },
      [arrived, payzTesterRpcResolve conn method id ⟨rpc.next, false, listconfigs, none, 0⟩])
  else if conn.queues = rpc.queues.address then
    match payzTesterRpcQueuesPop rpc.queues method with
    | some (response, queues) => ({ rpc with queues := queues },
        [arrived, payzTesterRpcResolve conn method id response])
    | none => waits
  else
    match freed with
    | some response => (rpc, [arrived, payzTesterRpcResolve conn method id response])
    | none => waits

inductive RpcEvent where
  | opens (newfd : Int)
  | closes (fd : Int)
  | request (fd : Int) (tok : Json) (freed : Option PayzTesterRpcResponse)
  | addResponse (method data : Text)
  | addError (method : Text) (code : Int) (message data : Text)
  | clear

/-- What `json_scan` finds in a request, for `"\x7bmethod:%,id:%\x7d"`. -/
def scanRequest (tok : Json) : Option (Text × Nat) :=
  match tok.jsonGetMember "method".toList, (tok.jsonGetMember "id".toList).bind Json.jsonToU64 with
  | some method, some id => some (method.jsonStrdup, id)
  | _, _ => none

/-- Handle one event; `none` where the program ends.  A file descriptor that is open is not
    handed out again. -/
def PayzTesterRpc.step (rpc : PayzTesterRpc) :
    RpcEvent → Option (PayzTesterRpc × List RpcObservation)
  | .opens newfd =>
      if newfd ∈ rpc.conns.map PayzTesterRpcConn.fd then none
      else some (payzTesterRpcListenfd rpc newfd, [])
  | .closes fd =>
      if fd ∈ rpc.conns.map PayzTesterRpcConn.fd then some (payzTesterRpcClose rpc fd, [])
      else none
  | .request fd tok freed =>
      match rpc.conns.find? (fun conn => conn.fd = fd), scanRequest tok with
      | some conn, some (method, id) => some (payzTesterRpcConnProcess rpc conn method id freed)
      | _, _ => none
  | .addResponse method data => some (payzTesterRpcAddResponse rpc method data)
  | .addError method code message data =>
      some (payzTesterRpcAddError rpc method code message data)
  | .clear => some (payzTesterRpcClear rpc)

end Payz
