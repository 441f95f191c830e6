import Mathlib.Data.List.DropRight
import Payz.Lib.Runs
import Payz.Tester.Rpc

/-! # The emulator pairs requests and responses

What one step of the emulator can do, as long as no connection reads a queues object that
is no more, and from that what holds of every run: a request and a response for the same
method do not wait at the same time, and both are served in the order they came.
-/

namespace Payz

open Runs

/-- An event and what is seen of it. -/
structure RpcLabel where
  event : RpcEvent
  observed : List RpcObservation

/-- One step of the emulator. -/
def PayzTesterRpc.Step (s : PayzTesterRpc) (label : RpcLabel) (s' : PayzTesterRpc) : Prop :=
  s.step label.event = some (s', label.observed)

/-- A request, other than for `listconfigs`, comes over a connection that was opened since
    the queues object was last replaced. -/
def RpcEvent.Current (s : PayzTesterRpc) : RpcEvent → Prop
  | .request fd tok _ => ∀ method id, scanRequest tok = some (method, id) →
      method ≠ "listconfigs".toList → ∀ conn ∈ s.conns, conn.fd = fd →
        conn.queues = s.queues.address
  | _ => True

/-- Steps of that kind. -/
def CurrentStep (s : PayzTesterRpc) (label : RpcLabel) (s' : PayzTesterRpc) : Prop :=
  s.Step label s' ∧ label.event.Current s

/-! ## What a step does -/

/-- One step: what is seen, and the emulator after it. -/
inductive RpcMove (s : PayzTesterRpc) : List RpcObservation → PayzTesterRpc → Prop where
  | opens {newfd : Int} : newfd ∉ s.conns.map PayzTesterRpcConn.fd →
      RpcMove s [] (payzTesterRpcListenfd s newfd)
  | closes {fd : Int} : RpcMove s [] (payzTesterRpcClose s fd)
  | config {conn : PayzTesterRpcConn} {id : Nat} {response : PayzTesterRpcResponse} :
      conn ∈ s.conns → RpcMove s [.arrived conn.address "listconfigs".toList id,
        payzTesterRpcResolve conn "listconfigs".toList id response] { s with next := s.next + 1 }
  | served {conn : PayzTesterRpcConn} {method : Text} {id : Nat}
      {response : PayzTesterRpcResponse} {rest : List PayzTesterRpcResponse} :
      conn ∈ s.conns → method ≠ "listconfigs".toList →
      s.queues.responses method = response :: rest →
      RpcMove s [.arrived conn.address method id, payzTesterRpcResolve conn method id response]
        { s with queues := { s.queues with
          responses := Function.update s.queues.responses method rest } }
  | waits {front back : List PayzTesterRpcConn} {conn : PayzTesterRpcConn} {method : Text}
      {id : Nat} : s.conns = front ++ conn :: back → method ≠ "listconfigs".toList →
      s.queues.responses method = [] →
      RpcMove s [.arrived conn.address method id]
        { s with conns := front ++ payzTesterRpcConnAddRequest conn method id :: back }
  | answers {front back : List PayzTesterRpcConn} {conn : PayzTesterRpcConn} {method : Text}
      {id : Nat} {rest : List Nat} {response : PayzTesterRpcResponse} :
      s.conns = front ++ conn :: back → conn.requests method = id :: rest →
      response.address = s.next →
      RpcMove s [.added method response, payzTesterRpcResolve conn method id response]
        { s with
          conns := front ++
            { conn with requests := Function.update conn.requests method rest } :: back
          next := s.next + 1 }
  | queues {method : Text} {response : PayzTesterRpcResponse} :
      (∀ conn ∈ s.conns, conn.requests method = []) → response.address = s.next →
      RpcMove s [.added method response]
        { s with
          queues := payzTesterRpcQueuesPush s.queues method response
          next := s.next + 1 }
  | clears : RpcMove s [.cleared] (payzTesterRpcClear s).1

theorem payzTesterRpcFirstWaiting_some {method : Text} {conns conns' : List PayzTesterRpcConn}
    {conn : PayzTesterRpcConn} {id : Nat}
    (found : payzTesterRpcFirstWaiting method conns = some (conn, id, conns')) :
    ∃ front back rest, conns = front ++ conn :: back ∧ conn.requests method = id :: rest ∧
      conns' = front ++
        { conn with requests := Function.update conn.requests method rest } :: back := by
  induction conns generalizing conns' with
  | nil => cases found
  | cons c conns ih =>
      rw [payzTesterRpcFirstWaiting, payzTesterRpcConnTryrespond] at found
      cases requests : c.requests method with
      | nil =>
          rw [requests] at found
          obtain ⟨⟨conn', id', later⟩, there, same⟩ := Option.map_eq_some_iff.mp found
          cases same
          obtain ⟨front, back, rest, rfl, waiting, rfl⟩ := ih there
          exact ⟨c :: front, back, rest, rfl, waiting, rfl⟩
      | cons first rest =>
          rw [requests] at found
          cases found
          exact ⟨[], conns, rest, rfl, requests, rfl⟩

theorem payzTesterRpcFirstWaiting_none {method : Text} {conns : List PayzTesterRpcConn}
    (none : payzTesterRpcFirstWaiting method conns = none) :
    ∀ conn ∈ conns, conn.requests method = [] := by
  induction conns with
  | nil => simp
  | cons c conns ih =>
      rw [payzTesterRpcFirstWaiting, payzTesterRpcConnTryrespond] at none
      cases requests : c.requests method with
      | nil =>
          rw [requests] at none
          exact List.forall_mem_cons.mpr ⟨requests, ih (Option.map_eq_none_iff.mp none)⟩
      | cons first rest =>
          rw [requests] at none
          cases none

theorem payzTesterRpcAddResponseObj_move (s : PayzTesterRpc) (method : Text)
    {response : PayzTesterRpcResponse} (fresh : response.address = s.next) :
    RpcMove s (payzTesterRpcAddResponseObj { s with next := s.next + 1 } method response).2
      (payzTesterRpcAddResponseObj { s with next := s.next + 1 } method response).1 := by
  unfold payzTesterRpcAddResponseObj
  dsimp only
  cases found : payzTesterRpcFirstWaiting method s.conns with
  | none => exact .queues (payzTesterRpcFirstWaiting_none found) fresh
  | some hit =>
      obtain ⟨conn, id, conns⟩ := hit
      obtain ⟨front, back, rest, split, waiting, rfl⟩ := payzTesterRpcFirstWaiting_some found
      exact .answers split waiting fresh

theorem map_conn_split {front back : List PayzTesterRpcConn} {conn : PayzTesterRpcConn}
    (distinct : ((front ++ conn :: back).map PayzTesterRpcConn.fd).Nodup)
    (f : PayzTesterRpcConn → PayzTesterRpcConn) :
    ((front ++ conn :: back).map fun c => if c.fd = conn.fd then f c else c) =
      front ++ f conn :: back := by
  rw [List.map_append, List.map_cons, List.nodup_append] at distinct
  obtain ⟨-, tail, apart⟩ := distinct
  rw [List.nodup_cons] at tail
  have before : ∀ c ∈ front, c.fd ≠ conn.fd := fun c member =>
    apart c.fd (List.mem_map_of_mem member) conn.fd List.mem_cons_self
  have behind : ∀ c ∈ back, c.fd ≠ conn.fd := fun c member same =>
    tail.1 (same ▸ List.mem_map_of_mem member)
  rw [List.map_append, List.map_cons, if_pos rfl]
  congr 1
  · exact (List.map_congr_left fun c member => if_neg (before c member)).trans (List.map_id _)
  · congr 1
    exact (List.map_congr_left fun c member => if_neg (behind c member)).trans (List.map_id _)

theorem PayzTesterRpc.move_of_step {s s' : PayzTesterRpc} {label : RpcLabel}
    (distinct : (s.conns.map PayzTesterRpcConn.fd).Nodup) (step : CurrentStep s label s') :
    RpcMove s label.observed s' := by
  obtain ⟨event, observed⟩ := label
  obtain ⟨step, current⟩ := step
  rw [Step] at step
  cases event with
  | opens newfd =>
      rw [PayzTesterRpc.step] at step
      split_ifs at step with taken
      cases step
      exact .opens taken
  | closes fd =>
      rw [PayzTesterRpc.step] at step
      split_ifs at step
      cases step
      exact .closes
  | addResponse method data =>
      have moved := @payzTesterRpcAddResponseObj_move s method ⟨s.next, false, data, none, 0⟩ rfl
      have same : payzTesterRpcAddResponse s method data = (s', observed) := Option.some.inj step
      rw [payzTesterRpcAddResponse] at same
      rwa [same] at moved
  | addError method code message data =>
      have moved := @payzTesterRpcAddResponseObj_move s method
        ⟨s.next, true, data, some message, code⟩ rfl
      have same : payzTesterRpcAddError s method code message data = (s', observed) :=
        Option.some.inj step
      rw [payzTesterRpcAddError] at same
      rwa [same] at moved
  | clear =>
      cases step
      exact .clears
  | request fd tok freed =>
      rw [PayzTesterRpc.step] at step
      split at step
      · next conn method id found scanned =>
          have member := List.mem_of_find?_eq_some found
          have here : conn.fd = fd := by simpa using List.find?_some found
          have same := Option.some.inj step
          unfold payzTesterRpcConnProcess at same
          dsimp only at same
          split_ifs at same with config queue
          · cases same
            rw [config]
            exact .config member
          · cases responses : s.queues.responses method with
            | nil =>
                obtain ⟨front, back, split⟩ := List.append_of_mem member
                rw [payzTesterRpcQueuesPop, responses, split,
                  map_conn_split (split ▸ distinct)] at same
                cases same
                exact .waits split config responses
            | cons response rest =>
                rw [payzTesterRpcQueuesPop, responses] at same
                cases same
                exact .served member config responses
          · exact absurd (current method id scanned config conn member here) queue
      · cases step

/-! ## What has been seen -/

namespace RpcObservation

/-- The id of a request for this method that came over this connection. -/
def arrival (conn : Nat) (method : Text) : RpcObservation → List Nat
  | .arrived c m id => if c = conn ∧ m = method then [id] else []
  | _ => []

/-- The id of such a request that was answered. -/
def answer (conn : Nat) (method : Text) : RpcObservation → List Nat
  | .written c m id _ _ => if c = conn ∧ m = method then [id] else []
  | _ => []

def addition (method : Text) : RpcObservation → List PayzTesterRpcResponse
  | .added m response => if m = method then [response] else []
  | _ => []

def writing (method : Text) : RpcObservation → List PayzTesterRpcResponse
  | .written _ m _ response _ => if m = method then [response] else []
  | _ => []

/-- The address of a response written for any method but `listconfigs`. -/
def address : RpcObservation → List Nat
  | .written _ m _ response _ => if m = "listconfigs".toList then [] else [response.address]
  | _ => []

end RpcObservation

variable (trace trace' : List RpcObservation) (conn : Nat) (method : Text)

/-- The requests for a method that came over a connection. -/
def arrivals : List Nat := trace.flatMap (RpcObservation.arrival conn method)

def answers : List Nat := trace.flatMap (RpcObservation.answer conn method)

def addedTo : List PayzTesterRpcResponse := trace.flatMap (RpcObservation.addition method)

def writtenTo : List PayzTesterRpcResponse := trace.flatMap (RpcObservation.writing method)

/-- The addresses of the responses written for any method but `listconfigs`. -/
def writes : List Nat := trace.flatMap RpcObservation.address

/-- What has been seen since the queues object was last replaced. -/
def sinceClear : List RpcObservation := trace.rtakeWhile fun o => o ≠ .cleared

@[simp] theorem arrivals_append :
    arrivals (trace ++ trace') conn method =
      arrivals trace conn method ++ arrivals trace' conn method := List.flatMap_append

@[simp] theorem answers_append :
    answers (trace ++ trace') conn method =
      answers trace conn method ++ answers trace' conn method := List.flatMap_append

@[simp] theorem addedTo_append :
    addedTo (trace ++ trace') method = addedTo trace method ++ addedTo trace' method :=
  List.flatMap_append

@[simp] theorem writtenTo_append :
    writtenTo (trace ++ trace') method = writtenTo trace method ++ writtenTo trace' method :=
  List.flatMap_append

@[simp] theorem writes_append : writes (trace ++ trace') = writes trace ++ writes trace' :=
  List.flatMap_append

variable {trace trace'} {conn method}

theorem sinceClear_append (none : RpcObservation.cleared ∉ trace') :
    sinceClear (trace ++ trace') = sinceClear trace ++ trace' := by
  induction trace' using List.reverseRecOn with
  | nil => simp
  | append_singleton front o ih =>
      rw [List.mem_append, List.mem_singleton, not_or] at none
      have differ : decide (o ≠ RpcObservation.cleared) = true := by simpa using Ne.symm none.2
      calc sinceClear (trace ++ (front ++ [o]))
        _ = sinceClear (trace ++ front ++ [o]) := by rw [List.append_assoc]
        _ = sinceClear (trace ++ front) ++ [o] :=
            List.rtakeWhile_concat_pos (fun o : RpcObservation => decide (o ≠ .cleared)) _ o differ
        _ = sinceClear trace ++ (front ++ [o]) := by rw [ih none.1, List.append_assoc]

theorem sinceClear_cleared : sinceClear (trace ++ [.cleared]) = [] :=
  List.rtakeWhile_concat_neg (fun o : RpcObservation => decide (o ≠ .cleared)) _ _ (by simp)

theorem mem_addedTo {response : PayzTesterRpcResponse} :
    response ∈ addedTo trace method ↔ .added method response ∈ trace := by
  simp only [addedTo, List.mem_flatMap]
  constructor
  · rintro ⟨o, member, here⟩
    cases o with
    | added m r =>
        simp only [RpcObservation.addition] at here
        split_ifs at here with same
        · rw [List.mem_singleton.mp here, ← same]
          exact member
        · cases here
    | arrived | written | cleared => cases here
  · intro member
    exact ⟨_, member, by simp [RpcObservation.addition]⟩

theorem mem_writtenTo {id : Nat} {response : PayzTesterRpcResponse} {text : Text}
    (member : .written conn method id response text ∈ trace) :
    response ∈ writtenTo trace method :=
  List.mem_flatMap.mpr ⟨_, member, by simp [RpcObservation.writing]⟩

/-! ## Connections -/

/-- Connections are told apart by their file descriptors and addresses. -/
structure RpcConns (s : PayzTesterRpc) : Prop where
  fds : (s.conns.map PayzTesterRpcConn.fd).Nodup
  addresses : (s.conns.map PayzTesterRpcConn.address).Nodup
  known : ∀ conn ∈ s.conns, conn.address < s.next
  configs : ∀ conn ∈ s.conns, conn.requests "listconfigs".toList = []

theorem rpcConns_new : RpcConns payzTesterRpcNew := by
  constructor <;> simp [payzTesterRpcNew]

theorem RpcConns.replace {s s' : PayzTesterRpc} {front back : List PayzTesterRpcConn}
    {conn conn' : PayzTesterRpcConn} (conns : RpcConns s) (split : s.conns = front ++ conn :: back)
    (split' : s'.conns = front ++ conn' :: back) (fd : conn'.fd = conn.fd)
    (address : conn'.address = conn.address) (more : s.next ≤ s'.next)
    (config : conn'.requests "listconfigs".toList = []) : RpcConns s' := by
  obtain ⟨fds, addresses, known, configs⟩ := conns
  rw [split] at fds addresses known configs
  refine ⟨?_, ?_, ?_, ?_⟩
  · rw [split', List.map_append, List.map_cons, fd, ← List.map_cons, ← List.map_append]
    exact fds
  · rw [split', List.map_append, List.map_cons, address, ← List.map_cons, ← List.map_append]
    exact addresses
  · rw [List.forall_mem_append, List.forall_mem_cons] at known
    rw [split', List.forall_mem_append, List.forall_mem_cons, address]
    exact ⟨fun c member => lt_of_lt_of_le (known.1 c member) more,
      lt_of_lt_of_le known.2.1 more, fun c member => lt_of_lt_of_le (known.2.2 c member) more⟩
  · rw [List.forall_mem_append, List.forall_mem_cons] at configs
    rw [split', List.forall_mem_append, List.forall_mem_cons]
    exact ⟨configs.1, config, configs.2.2⟩

theorem mem_payzTesterRpcListenfd {s : PayzTesterRpc} {newfd : Int} {c : PayzTesterRpcConn} :
    c ∈ (payzTesterRpcListenfd s newfd).conns ↔
      c = ⟨s.next, s.queues.address, newfd, fun _ => []⟩ ∨ c ∈ s.conns :=
  List.mem_orderedInsert _

theorem RpcMove.conns {s s' : PayzTesterRpc} {observed : List RpcObservation}
    (move : RpcMove s observed s') (conns : RpcConns s) : RpcConns s' := by
  cases move with
  | @opens newfd fresh =>
      have perm := List.perm_orderedInsert (fun c d : PayzTesterRpcConn => c.fd ≤ d.fd)
        ⟨s.next, s.queues.address, newfd, fun _ => []⟩ s.conns
      have old : s.next ∉ s.conns.map PayzTesterRpcConn.address := by
        intro member
        obtain ⟨conn, there, same⟩ := List.mem_map.mp member
        exact absurd (conns.known conn there) (by omega)
      refine ⟨?_, ?_, ?_, ?_⟩
      · exact (perm.map _).nodup_iff.mpr (List.nodup_cons.mpr ⟨fresh, conns.fds⟩)
      · exact (perm.map _).nodup_iff.mpr (List.nodup_cons.mpr ⟨old, conns.addresses⟩)
      · intro conn member
        rcases mem_payzTesterRpcListenfd.mp member with rfl | there
        · exact Nat.lt_succ_self _
        · exact Nat.lt_succ_of_lt (conns.known conn there)
      · intro conn member
        rcases mem_payzTesterRpcListenfd.mp member with rfl | there
        · rfl
        · exact conns.configs conn there
  | closes =>
      refine ⟨conns.fds.sublist (List.filter_sublist.map _),
        conns.addresses.sublist (List.filter_sublist.map _), ?_, ?_⟩
      · exact fun conn member => conns.known conn (List.mem_of_mem_filter member)
      · exact fun conn member => conns.configs conn (List.mem_of_mem_filter member)
  | config | queues | clears =>
      exact ⟨conns.fds, conns.addresses, fun conn member =>
        Nat.lt_succ_of_lt (conns.known conn member), conns.configs⟩
  | served => exact ⟨conns.fds, conns.addresses, conns.known, conns.configs⟩
  | @waits front back conn method id split other =>
      have member : conn ∈ s.conns := by rw [split]; simp
      refine conns.replace split rfl rfl rfl le_rfl ?_
      unfold payzTesterRpcConnAddRequest
      dsimp only
      rw [Function.update_of_ne other.symm]
      exact conns.configs conn member
  | @answers front back conn method id rest response split waiting fresh =>
      have member : conn ∈ s.conns := by rw [split]; simp
      have other : method ≠ "listconfigs".toList := by
        rintro rfl
        rw [conns.configs conn member] at waiting
        cases waiting
      refine conns.replace split rfl rfl rfl (Nat.le_succ _) ?_
      dsimp only
      rw [Function.update_of_ne other.symm]
      exact conns.configs conn member

end Payz
