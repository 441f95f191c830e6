import Payz.Tester.Rendezvous

/-! # Requests and responses in every run

Each invariant is kept by one step of the emulator, and so by a run of them.
-/

namespace Payz

open Runs

/-! ## Requests -/

/-- What has been asked over an open connection is answered or waits there. -/
structure RpcWaits (trace : List RpcObservation) (s : PayzTesterRpc) : Prop where
  waiting : ∀ conn ∈ s.conns, ∀ method,
    answers trace conn.address method ++ conn.requests method = arrivals trace conn.address method
  answered : ∀ conn method, answers trace conn method <+: arrivals trace conn method
  fresh : ∀ conn method, s.next ≤ conn → arrivals trace conn method = []

/-- Responses for a method wait only while no request for it does. -/
def Rendezvous (s : PayzTesterRpc) : Prop :=
  ∀ method, s.queues.responses method ≠ [] → ∀ conn ∈ s.conns, conn.requests method = []

variable {trace observed : List RpcObservation} {s s' : PayzTesterRpc}

theorem rpcWaits_new : RpcWaits [] payzTesterRpcNew := by
  refine ⟨fun conn member => ?_, fun conn method => List.prefix_rfl, fun _ _ _ => rfl⟩
  cases member

theorem RpcWaits.elsewhere (waits : RpcWaits trace s)
    (answers_nil : ∀ conn method, answers observed conn method = [])
    (arrivals_nil : ∀ conn method, arrivals observed conn method = [])
    (conns : ∀ conn ∈ s'.conns, conn ∈ s.conns) (more : s.next ≤ s'.next) :
    RpcWaits (trace ++ observed) s' := by
  refine ⟨?_, ?_, ?_⟩
  · intro conn member method
    rw [answers_append, arrivals_append, answers_nil, arrivals_nil, List.append_nil,
      List.append_nil]
    exact waits.waiting conn (conns conn member) method
  · intro conn method
    rw [answers_append, arrivals_append, answers_nil, arrivals_nil, List.append_nil,
      List.append_nil]
    exact waits.answered conn method
  · intro conn method later
    rw [arrivals_append, arrivals_nil, List.append_nil]
    exact waits.fresh conn method (more.trans later)

theorem RpcWaits.replace {front back : List PayzTesterRpcConn} {conn conn' : PayzTesterRpcConn}
    (waits : RpcWaits trace s) (conns : RpcConns s) (split : s.conns = front ++ conn :: back)
    (split' : s'.conns = front ++ conn' :: back) (address : conn'.address = conn.address)
    (more : s.next ≤ s'.next)
    (here : ∀ method, answers (trace ++ observed) conn.address method ++ conn'.requests method =
      arrivals (trace ++ observed) conn.address method)
    (answers_nil : ∀ c method, c ≠ conn.address → answers observed c method = [])
    (arrivals_nil : ∀ c method, c ≠ conn.address → arrivals observed c method = []) :
    RpcWaits (trace ++ observed) s' := by
  obtain ⟨-, addresses, known, -⟩ := conns
  rw [split, List.map_append, List.map_cons, List.nodup_append, List.nodup_cons] at addresses
  obtain ⟨-, ⟨behind, -⟩, before⟩ := addresses
  have other : ∀ c ∈ s.conns, c.address ≠ conn.address → ∀ method,
      answers (trace ++ observed) c.address method ++ c.requests method =
        arrivals (trace ++ observed) c.address method := by
    intro c member differ method
    rw [answers_append, arrivals_append, answers_nil _ _ differ, arrivals_nil _ _ differ,
      List.append_nil, List.append_nil]
    exact waits.waiting c member method
  refine ⟨?_, ?_, ?_⟩
  · rw [split', List.forall_mem_append, List.forall_mem_cons, address]
    refine ⟨fun c member => other c (by simp [split, member]) ?_, here,
      fun c member => other c (by simp [split, member]) ?_⟩
    · exact before _ (List.mem_map_of_mem member) _ List.mem_cons_self
    · exact fun same => behind (same ▸ List.mem_map_of_mem member)
  · intro c method
    by_cases same : c = conn.address
    · rw [same]
      exact ⟨_, here method⟩
    · rw [answers_append, arrivals_append, answers_nil _ _ same, arrivals_nil _ _ same,
        List.append_nil, List.append_nil]
      exact waits.answered c method
  · intro c method later
    have differ : c ≠ conn.address := by
      have old := known conn (by simp [split])
      omega
    rw [arrivals_append, arrivals_nil _ _ differ, List.append_nil]
    exact waits.fresh c method (more.trans later)

/-- A request that is answered at once, where none waits for the same method. -/
theorem RpcWaits.served {conn : PayzTesterRpcConn} {method : Text} {id : Nat}
    {response : PayzTesterRpcResponse} (waits : RpcWaits trace s) (conns : RpcConns s)
    (member : conn ∈ s.conns) (idle : conn.requests method = []) (same : s'.conns = s.conns)
    (more : s.next ≤ s'.next) :
    RpcWaits (trace ++ [.arrived conn.address method id,
      payzTesterRpcResolve conn method id response]) s' := by
  obtain ⟨front, back, split⟩ := List.append_of_mem member
  refine waits.replace conns split (same.trans split) rfl more ?_ ?_ ?_
  · intro m
    have waiting := waits.waiting conn member m
    rw [answers_append, arrivals_append, ← waiting]
    by_cases this : method = m
    · subst this
      simp [idle, answers, arrivals, RpcObservation.answer, RpcObservation.arrival,
        payzTesterRpcResolve]
    · simp [this, answers, arrivals, RpcObservation.answer, RpcObservation.arrival,
        payzTesterRpcResolve]
  · intro c m differ
    simp [answers, RpcObservation.answer, payzTesterRpcResolve, differ.symm]
  · intro c m differ
    simp [arrivals, RpcObservation.arrival, payzTesterRpcResolve, differ.symm]

theorem RpcMove.keeps_waits (move : RpcMove s observed s') (conns : RpcConns s)
    (meets : Rendezvous s) (waits : RpcWaits trace s) : RpcWaits (trace ++ observed) s' := by
  cases move with
  | @opens newfd fresh =>
      rw [List.append_nil]
      refine ⟨?_, waits.answered, fun c m later => waits.fresh c m (Nat.le_of_succ_le later)⟩
      intro conn member m
      rcases mem_payzTesterRpcListenfd.mp member with rfl | there
      · have none := waits.fresh s.next m le_rfl
        have prefix_nil := waits.answered s.next m
        rw [none, List.prefix_nil] at prefix_nil
        rw [none, prefix_nil]
        rfl
      · exact waits.waiting conn there m
  | closes =>
      exact waits.elsewhere (fun _ _ => rfl) (fun _ _ => rfl)
        (fun conn member => List.mem_of_mem_filter member) le_rfl
  | config member =>
      exact waits.served conns member (conns.configs _ member) rfl (Nat.le_succ _)
  | @served conn method id response rest member other queued =>
      exact waits.served conns member (meets method (by simp [queued]) conn member) rfl le_rfl
  | @waits front back conn method id split other empty =>
      have member : conn ∈ s.conns := by simp [split]
      refine waits.replace conns split rfl rfl le_rfl ?_ ?_ ?_
      · intro m
        have waiting := waits.waiting conn member m
        unfold payzTesterRpcConnAddRequest
        rw [answers_append, arrivals_append, ← waiting]
        by_cases this : m = method
        · subst this
          simp [Payz.answers, arrivals, RpcObservation.answer, RpcObservation.arrival]
        · simp [this, Ne.symm this, Payz.answers, arrivals, RpcObservation.answer,
            RpcObservation.arrival]
      · intro c m differ
        rfl
      · intro c m differ
        simp [arrivals, RpcObservation.arrival, differ.symm]
  | @answers front back conn method id rest response split asked fresh =>
      have member : conn ∈ s.conns := by simp [split]
      refine waits.replace conns split rfl rfl (Nat.le_succ _) ?_ ?_ ?_
      · intro m
        have waiting := waits.waiting conn member m
        rw [answers_append, arrivals_append, ← waiting]
        by_cases this : m = method
        · subst this
          simp [asked, Payz.answers, arrivals, RpcObservation.answer, RpcObservation.arrival,
            payzTesterRpcResolve]
        · simp [this, Ne.symm this, Payz.answers, arrivals, RpcObservation.answer,
            RpcObservation.arrival, payzTesterRpcResolve]
      · intro c m differ
        simp [Payz.answers, RpcObservation.answer, payzTesterRpcResolve, differ.symm]
      · intro c m differ
        rfl
  | queues | clears =>
      exact waits.elsewhere (fun _ _ => rfl) (fun _ _ => rfl) (fun _ member => member)
        (Nat.le_succ _)

/-! ## Responses -/

/-- Responses are written in the order they were added, and what is left of them waits. -/
structure RpcQueued (trace : List RpcObservation) (s : PayzTesterRpc) : Prop where
  rendezvous : Rendezvous s
  since : ∀ method ≠ "listconfigs".toList,
    writtenTo (sinceClear trace) method ++ s.queues.responses method =
      addedTo (sinceClear trace) method
  inOrder : ∀ method ≠ "listconfigs".toList,
    (writtenTo trace method ++ s.queues.responses method).Sublist (addedTo trace method)

theorem rpcQueued_new : RpcQueued [] payzTesterRpcNew :=
  ⟨fun _ some => absurd rfl some, fun _ _ => rfl, fun _ _ => .slnil⟩

/-- With no response for a method, it does not matter which requests for it wait. -/
theorem Rendezvous.replace {front back : List PayzTesterRpcConn} {conn : PayzTesterRpcConn}
    {method : Text} (meets : Rendezvous s) (split : s.conns = front ++ conn :: back)
    (empty : s.queues.responses method = []) (requests : List Nat) (next : Nat) :
    Rendezvous { s with
      conns := front ++
        { conn with requests := Function.update conn.requests method requests } :: back
      next := next } := by
  intro m some
  have before := meets m some
  rw [split, List.forall_mem_append, List.forall_mem_cons] at before
  have this : m ≠ method := by
    rintro rfl
    exact some empty
  rw [List.forall_mem_append, List.forall_mem_cons]
  refine ⟨before.1, ?_, before.2.2⟩
  dsimp only
  rw [Function.update_of_ne this]
  exact before.2.1

/-- As long as the queues object stays, it is enough to say what a step adds, writes and leaves
    in the queue. -/
theorem RpcQueued.next (queued : RpcQueued trace s) (rendezvous : Rendezvous s')
    (stays : RpcObservation.cleared ∉ observed)
    (flow : ∀ method ≠ "listconfigs".toList,
      writtenTo observed method ++ s'.queues.responses method =
        s.queues.responses method ++ addedTo observed method) :
    RpcQueued (trace ++ observed) s' := by
  refine ⟨rendezvous, ?_, ?_⟩
  · intro method other
    rw [sinceClear_append stays, writtenTo_append, addedTo_append, List.append_assoc,
      flow method other, ← List.append_assoc, queued.since method other]
  · intro method other
    rw [writtenTo_append, addedTo_append, List.append_assoc, flow method other,
      ← List.append_assoc]
    exact (queued.inOrder method other).append_right _

theorem RpcMove.keeps_queued (move : RpcMove s observed s') (queued : RpcQueued trace s) :
    RpcQueued (trace ++ observed) s' := by
  cases move with
  | @opens newfd fresh =>
      refine queued.next ?_ (by simp) (fun m other => (List.append_nil _).symm)
      intro m some conn member
      rcases mem_payzTesterRpcListenfd.mp member with rfl | there
      · rfl
      · exact queued.rendezvous m some conn there
  | closes =>
      exact queued.next (fun m some conn member =>
        queued.rendezvous m some conn (List.mem_of_mem_filter member)) (by simp)
        (fun m other => (List.append_nil _).symm)
  | config =>
      refine queued.next queued.rendezvous (by simp [payzTesterRpcResolve]) ?_
      intro m other
      simp only [writtenTo, addedTo, List.flatMap_cons, List.flatMap_nil, RpcObservation.writing,
        RpcObservation.addition, payzTesterRpcResolve, if_neg other.symm, List.append_nil,
        List.nil_append]
  | @served conn method id response rest member other responses =>
      refine queued.next ?_ (by simp [payzTesterRpcResolve]) ?_
      · intro m some
        by_cases this : m = method
        · subst this
          exact queued.rendezvous m (by simp [responses])
        · dsimp only at some
          rw [Function.update_of_ne this] at some
          exact queued.rendezvous m some
      · intro m _
        by_cases this : m = method
        · subst this
          simp [responses, writtenTo, addedTo, RpcObservation.writing, RpcObservation.addition,
            payzTesterRpcResolve]
        · simp [this, Ne.symm this, writtenTo, addedTo, RpcObservation.writing,
            RpcObservation.addition, payzTesterRpcResolve]
  | @waits front back conn method id split other empty =>
      exact queued.next (queued.rendezvous.replace split empty _ s.next) (by simp)
        (fun m other => (List.append_nil _).symm)
  | @answers front back conn method id rest response split asked fresh =>
      have member : conn ∈ s.conns := by simp [split]
      have empty : s.queues.responses method = [] := by
        by_contra some
        have idle := queued.rendezvous method some conn member
        rw [asked] at idle
        cases idle
      refine queued.next (queued.rendezvous.replace split empty rest (s.next + 1))
        (by simp [payzTesterRpcResolve]) ?_
      intro m _
      by_cases this : m = method
      · subst this
        simp [empty, writtenTo, addedTo, RpcObservation.writing, RpcObservation.addition,
          payzTesterRpcResolve]
      · simp [Ne.symm this, writtenTo, addedTo, RpcObservation.writing,
          RpcObservation.addition, payzTesterRpcResolve]
  | @queues method response idle fresh =>
      refine queued.next ?_ (by simp) ?_
      · intro m some
        by_cases this : m = method
        · subst this
          exact idle
        · unfold payzTesterRpcQueuesPush at some
          dsimp only at some
          rw [Function.update_of_ne this] at some
          exact queued.rendezvous m some
      · intro m _
        unfold payzTesterRpcQueuesPush
        by_cases this : m = method
        · subst this
          simp [writtenTo, addedTo, RpcObservation.writing, RpcObservation.addition]
        · simp [this, Ne.symm this, writtenTo, addedTo, RpcObservation.writing,
            RpcObservation.addition]
  | clears =>
      refine ⟨fun m some => absurd rfl some, ?_, ?_⟩
      · intro m _
        rw [sinceClear_cleared]
        rfl
      · intro m other
        have before := (List.sublist_append_left _ _).trans (queued.inOrder m other)
        simpa [writtenTo, addedTo, RpcObservation.writing, RpcObservation.addition,
          payzTesterRpcClear] using before

/-! ## Each response once -/

/-- A response is told apart from the others by its address. -/
structure RpcOnce (trace : List RpcObservation) (s : PayzTesterRpc) : Prop where
  fresh : ∀ ⦃method response⦄, .added method response ∈ trace → response.address < s.next
  distinct : ∀ ⦃method method' response response'⦄, .added method response ∈ trace →
    .added method' response' ∈ trace → response.address = response'.address →
      method = method' ∧ response = response'
  added : ∀ method, (addedTo trace method).Nodup
  written : (writes trace).Nodup

theorem rpcOnce_new : RpcOnce [] payzTesterRpcNew := by
  constructor <;> simp [addedTo, writes]

theorem mem_writes {address : Nat} :
    address ∈ writes trace ↔ ∃ method ≠ "listconfigs".toList,
      ∃ response ∈ writtenTo trace method, response.address = address := by
  simp only [writes, writtenTo, List.mem_flatMap]
  constructor
  · rintro ⟨o, member, here⟩
    cases o with
    | written c m id response text =>
        simp only [RpcObservation.address] at here
        split_ifs at here with config
        · cases here
        · exact ⟨m, config, response, ⟨_, member, by simp [RpcObservation.writing]⟩,
            (List.mem_singleton.mp here).symm⟩
    | arrived | added | cleared => cases here
  · rintro ⟨method, other, response, ⟨o, member, here⟩, rfl⟩
    cases o with
    | written c m id r text =>
        simp only [RpcObservation.writing] at here
        split_ifs at here with same
        · subst same
          rw [List.mem_singleton.mp here]
          exact ⟨_, member, by simp only [RpcObservation.address, if_neg other,
            List.mem_singleton]⟩
        · cases here
    | arrived | added | cleared => cases here

theorem RpcQueued.mem_added (queued : RpcQueued trace s) {method : Text}
    {response : PayzTesterRpcResponse} (other : method ≠ "listconfigs".toList)
    (member : response ∈ writtenTo trace method ++ s.queues.responses method) :
    .added method response ∈ trace :=
  mem_addedTo.mp ((queued.inOrder method other).subset member)

theorem RpcOnce.not_written (once : RpcOnce trace s) (queued : RpcQueued trace s) {method : Text}
    {response : PayzTesterRpcResponse} (other : method ≠ "listconfigs".toList)
    (waits : response ∈ s.queues.responses method) : response.address ∉ writes trace := by
  intro member
  obtain ⟨m, other', r, written, same⟩ := mem_writes.mp member
  have before := queued.mem_added other' (List.mem_append_left _ written)
  have after := queued.mem_added other (List.mem_append_right _ waits)
  obtain ⟨rfl, rfl⟩ := once.distinct before after same
  have apart := (queued.inOrder m other).nodup (once.added m)
  exact List.disjoint_of_nodup_append apart written waits

theorem RpcOnce.more (once : RpcOnce trace s) (more : s.next ≤ s'.next)
    (none : ∀ method response, RpcObservation.added method response ∉ observed)
    (new : (writes trace ++ writes observed).Nodup) : RpcOnce (trace ++ observed) s' := by
  have old : ∀ {method response}, .added method response ∈ trace ++ observed →
      .added method response ∈ trace := fun member =>
    (List.mem_append.mp member).resolve_right (none _ _)
  refine ⟨fun m r member => lt_of_lt_of_le (once.fresh (old member)) more,
    fun m m' r r' member member' => once.distinct (old member) (old member'), ?_, ?_⟩
  · intro m
    have empty : addedTo observed m = [] := List.eq_nil_iff_forall_not_mem.mpr fun r there =>
      none m r (mem_addedTo.mp there)
    rw [addedTo_append, empty, List.append_nil]
    exact once.added m
  · rwa [writes_append]

theorem RpcOnce.add (method : Text) {response : PayzTesterRpcResponse} (once : RpcOnce trace s)
    (fresh : response.address = s.next) (more : s.next < s'.next)
    (only : ∀ m r, RpcObservation.added m r ∈ observed → m = method ∧ r = response)
    (added : ∀ m, (addedTo observed m).Nodup)
    (new : (writes trace ++ writes observed).Nodup) : RpcOnce (trace ++ observed) s' := by
  refine ⟨?_, ?_, ?_, ?_⟩
  · intro m r member
    rcases List.mem_append.mp member with there | here
    · exact (once.fresh there).trans more
    · obtain ⟨rfl, rfl⟩ := only m r here
      omega
  · intro m m' r r' member member' same
    rcases List.mem_append.mp member with there | here <;>
      rcases List.mem_append.mp member' with there' | here'
    · exact once.distinct there there' same
    · have := once.fresh there
      obtain ⟨rfl, rfl⟩ := only m' r' here'
      omega
    · have := once.fresh there'
      obtain ⟨rfl, rfl⟩ := only m r here
      omega
    · obtain ⟨rfl, rfl⟩ := only m r here
      obtain ⟨rfl, rfl⟩ := only m' r' here'
      exact ⟨rfl, rfl⟩
  · intro m
    rw [addedTo_append]
    refine (once.added m).append (added m) fun r there here => ?_
    have := once.fresh (mem_addedTo.mp there)
    obtain ⟨rfl, rfl⟩ := only m r (mem_addedTo.mp here)
    omega
  · rwa [writes_append]

theorem RpcConns.asked_other (conns : RpcConns s) {conn : PayzTesterRpcConn} {method : Text}
    {id : Nat} {rest : List Nat} (member : conn ∈ s.conns)
    (asked : conn.requests method = id :: rest) : method ≠ "listconfigs".toList := by
  rintro rfl
  rw [conns.configs conn member] at asked
  cases asked

theorem RpcOnce.written_append {address : Nat} (once : RpcOnce trace s)
    (new : address ∉ writes trace) : (writes trace ++ [address]).Nodup :=
  once.written.append (List.nodup_singleton _) (List.disjoint_singleton.mpr new)

theorem writes_resolve {conn : PayzTesterRpcConn} {method : Text} {id : Nat}
    {response : PayzTesterRpcResponse} {o : RpcObservation} (none : o.address = [])
    (other : method ≠ "listconfigs".toList) :
    writes [o, payzTesterRpcResolve conn method id response] = [response.address] := by
  simp only [writes, List.flatMap_cons, List.flatMap_nil, none, List.append_nil, List.nil_append]
  simp only [payzTesterRpcResolve, RpcObservation.address, if_neg other]

theorem RpcMove.keeps_once (move : RpcMove s observed s') (conns : RpcConns s)
    (queued : RpcQueued trace s) (once : RpcOnce trace s) : RpcOnce (trace ++ observed) s' := by
  cases move with
  | opens => exact once.more (Nat.le_succ _) (by simp) (by simpa [writes] using once.written)
  | closes => exact once.more le_rfl (by simp) (by simpa [writes] using once.written)
  | config =>
      refine once.more (Nat.le_succ _) (by simp [payzTesterRpcResolve]) ?_
      simpa [writes, payzTesterRpcResolve, RpcObservation.address] using once.written
  | @served conn method id response rest member other waits =>
      refine once.more le_rfl (by simp [payzTesterRpcResolve]) ?_
      rw [writes_resolve rfl other]
      exact once.written_append (once.not_written queued other (by simp [waits]))
  | waits =>
      refine once.more le_rfl (by simp) ?_
      simpa [writes, RpcObservation.address] using once.written
  | @answers front back conn method id rest response split asked fresh =>
      have other := conns.asked_other (by simp [split]) asked
      refine once.add method fresh (Nat.lt_succ_self _) (by simp [payzTesterRpcResolve]) ?_ ?_
      · intro m
        by_cases this : method = m <;>
          simp [this, addedTo, RpcObservation.addition, payzTesterRpcResolve]
      · rw [writes_resolve rfl other]
        refine once.written_append fun member => ?_
        obtain ⟨m, other', r, written, same⟩ := mem_writes.mp member
        have old := once.fresh (queued.mem_added other' (List.mem_append_left _ written))
        omega
  | @queues method response idle fresh =>
      refine once.add method fresh (Nat.lt_succ_self _) (by simp) ?_ ?_
      · intro m
        by_cases this : method = m <;> simp [this, addedTo, RpcObservation.addition]
      · simpa [writes, RpcObservation.address] using once.written
  | clears =>
      refine once.more (Nat.le_succ _) (by simp) ?_
      simpa [writes, RpcObservation.address] using once.written

/-! ## The queues object replaced -/

/-- After the queues object has been replaced, nothing added before is written. -/
def ClearedUnwritten (trace : List RpcObservation) : Prop :=
  ∀ ⦃before after⦄, trace = before ++ .cleared :: after → ∀ method ≠ "listconfigs".toList,
    ∀ response ∈ writtenTo after method, response ∉ addedTo before method

theorem sinceClear_suffix (before after : List RpcObservation) :
    sinceClear (before ++ .cleared :: after) <:+ after := by
  induction after using List.reverseRecOn with
  | nil =>
      have start : sinceClear (before ++ [.cleared]) = [] := sinceClear_cleared
      exact List.suffix_nil.mpr start
  | append_singleton after o ih =>
      rw [← List.cons_append, ← List.append_assoc]
      by_cases last : o = .cleared
      · rw [last, sinceClear_cleared]
        exact List.nil_suffix
      · rw [sinceClear_append (by simpa using Ne.symm last)]
        obtain ⟨more, split⟩ := ih
        exact ⟨more, by rw [← List.append_assoc, split]⟩

/-- What a step writes was added since the queues object was last replaced. -/
theorem RpcMove.written_recent (move : RpcMove s observed s') (queued : RpcQueued trace s)
    {method : Text} {response : PayzTesterRpcResponse} (other : method ≠ "listconfigs".toList)
    (written : response ∈ writtenTo observed method) :
    response ∈ addedTo (sinceClear trace) method ∨ response.address = s.next := by
  cases move with
  | config =>
      simp only [writtenTo, List.flatMap_cons, List.flatMap_nil, RpcObservation.writing,
        payzTesterRpcResolve, if_neg other.symm, List.append_nil, List.not_mem_nil] at written
  | @served conn m id r rest member config waits =>
      left
      by_cases this : m = method
      · subst this
        have here : response = r := by
          simpa [writtenTo, RpcObservation.writing, payzTesterRpcResolve] using written
        rw [← queued.since m other, waits, here]
        simp
      · simp [this, writtenTo, RpcObservation.writing, payzTesterRpcResolve] at written
  | @answers front back conn m id rest r split asked fresh =>
      right
      by_cases this : m = method
      · have here : response = r := by
          simpa [this, writtenTo, RpcObservation.writing, payzTesterRpcResolve] using written
        rw [here, fresh]
      · simp [this, writtenTo, RpcObservation.writing, payzTesterRpcResolve] at written
  | opens | closes | waits | queues | clears => cases written

theorem RpcMove.cleared_last (move : RpcMove s observed s') (member : .cleared ∈ observed) :
    observed = [.cleared] := by
  cases move with
  | clears => rfl
  | opens | closes | config | served | waits | answers | queues =>
      simp [payzTesterRpcResolve] at member

theorem RpcMove.keeps_cleared (move : RpcMove s observed s') (queued : RpcQueued trace s)
    (once : RpcOnce trace s) (unwritten : ClearedUnwritten trace) :
    ClearedUnwritten (trace ++ observed) := by
  intro before after split method other response written
  rcases List.append_eq_append_iff.mp split with
    ⟨rest, behind, ahead⟩ | ⟨rest, behind, ahead⟩
  · have only := move.cleared_last (by simp [ahead])
    rw [only] at ahead
    have none : after = [] := by
      cases rest with
      | nil => simpa using ahead
      | cons o rest => simp at ahead
    rw [none] at written
    cases written
  · cases rest with
    | nil =>
        rw [List.nil_append] at ahead
        have only := move.cleared_last (ahead ▸ List.mem_cons_self)
        rw [only] at ahead
        cases ahead
        cases written
    | cons o rest =>
        rw [List.cons_append] at ahead
        obtain ⟨rfl, rfl⟩ := List.cons.inj ahead
        rw [writtenTo_append, List.mem_append] at written
        rcases written with there | here
        · exact unwritten behind method other response there
        · intro early
          rcases move.written_recent queued other here with recent | fresh
          · obtain ⟨more, suffix⟩ := sinceClear_suffix before rest
            have apart := once.added method
            rw [behind, addedTo_append] at apart
            refine List.disjoint_of_nodup_append apart early (mem_addedTo.mpr ?_)
            have member := mem_addedTo.mp recent
            rw [behind] at member
            exact List.mem_cons_of_mem _ (suffix ▸ List.mem_append_right _ member)
          · have old := once.fresh (behind ▸ List.mem_append_left _ (mem_addedTo.mp early))
            omega

/-! ## Every run -/

/-- A request that has been answered, with a response that was added for its method. -/
def Owned (trace : List RpcObservation) : Prop :=
  ∀ ⦃conn method id response text⦄, .written conn method id response text ∈ trace →
    method ≠ "listconfigs".toList →
      .added method response ∈ trace ∧ .arrived conn method id ∈ trace ∧
        text = payzTesterRpcResolveText id response

/-- Requests and responses are paired without loss. -/
structure RpcPairs (trace : List RpcObservation) (s : PayzTesterRpc) : Prop where
  /-- A request that waits on an open connection and a response that waits do not meet. -/
  rendezvous : ∀ conn ∈ s.conns, ∀ method,
    conn.requests method = [] ∨ s.queues.responses method = []
  unanswered : ∀ conn ∈ s.conns, ∀ method,
    answers trace conn.address method ++ conn.requests method = arrivals trace conn.address method
  queued : ∀ method ≠ "listconfigs".toList,
    writtenTo (sinceClear trace) method ++ s.queues.responses method =
      addedTo (sinceClear trace) method
  once : (writes trace).Nodup
  own : Owned trace
  inOrder : ∀ method ≠ "listconfigs".toList,
    (writtenTo trace method).Sublist (addedTo trace method)
  answered : ∀ conn method, answers trace conn method <+: arrivals trace conn method
  cleared : ClearedUnwritten trace

theorem mem_arrivals {conn id : Nat} {method : Text} (member : id ∈ arrivals trace conn method) :
    .arrived conn method id ∈ trace := by
  obtain ⟨o, there, here⟩ := List.mem_flatMap.mp member
  cases o with
  | arrived c m i =>
      simp only [RpcObservation.arrival] at here
      split_ifs at here with same
      · obtain ⟨rfl, rfl⟩ := same
        rwa [List.mem_singleton.mp here]
      · cases here
  | added | written | cleared => cases here

theorem mem_answers {conn id : Nat} {method text : Text} {response : PayzTesterRpcResponse}
    (member : .written conn method id response text ∈ trace) : id ∈ answers trace conn method :=
  List.mem_flatMap.mpr ⟨_, member, by simp [RpcObservation.answer]⟩

theorem RpcMove.written_text (move : RpcMove s observed s') {conn id : Nat} {method text : Text}
    {response : PayzTesterRpcResponse}
    (member : .written conn method id response text ∈ observed) :
    text = payzTesterRpcResolveText id response := by
  cases move with
  | config | served | answers =>
      simp only [payzTesterRpcResolve, List.mem_cons, reduceCtorEq, List.not_mem_nil, or_false,
        false_or, RpcObservation.written.injEq] at member
      obtain ⟨-, -, rfl, rfl, rfl⟩ := member
      rfl
  | opens | closes | waits | queues | clears => simp at member

/-- Everything that is kept by a step. -/
structure RpcInvariant (trace : List RpcObservation) (s : PayzTesterRpc) : Prop where
  conns : RpcConns s
  waits : RpcWaits trace s
  queued : RpcQueued trace s
  once : RpcOnce trace s
  cleared : ClearedUnwritten trace
  texts : ∀ ⦃conn method id response text⦄, .written conn method id response text ∈ trace →
    text = payzTesterRpcResolveText id response

theorem rpcInvariant_new : RpcInvariant [] payzTesterRpcNew where
  conns := rpcConns_new
  waits := rpcWaits_new
  queued := rpcQueued_new
  once := rpcOnce_new
  cleared := fun before after split => by simp at split
  texts := fun _ _ _ _ _ member => by cases member

theorem RpcInvariant.step {label : RpcLabel} (invariant : RpcInvariant trace s)
    (step : CurrentStep s label s') : RpcInvariant (trace ++ label.observed) s' := by
  have move := PayzTesterRpc.move_of_step invariant.conns.fds step
  exact {
    conns := move.conns invariant.conns
    waits := move.keeps_waits invariant.conns invariant.queued.rendezvous invariant.waits
    queued := move.keeps_queued invariant.queued
    once := move.keeps_once invariant.conns invariant.queued invariant.once
    cleared := move.keeps_cleared invariant.queued invariant.once invariant.cleared
    texts := fun _ _ _ _ _ member =>
      (List.mem_append.mp member).elim (fun there => invariant.texts there) move.written_text }

theorem RpcInvariant.pairs (invariant : RpcInvariant trace s) : RpcPairs trace s where
  rendezvous conn member method := by
    by_cases empty : s.queues.responses method = []
    · exact .inr empty
    · exact .inl (invariant.queued.rendezvous method empty conn member)
  unanswered := invariant.waits.waiting
  queued := invariant.queued.since
  once := invariant.once.written
  own _ _ _ _ _ member other :=
    ⟨invariant.queued.mem_added other (List.mem_append_left _ (mem_writtenTo member)),
      mem_arrivals ((invariant.waits.answered _ _).subset (mem_answers member)),
      invariant.texts member⟩
  inOrder method other :=
    (List.sublist_append_left _ _).trans (invariant.queued.inOrder method other)
  answered := invariant.waits.answered
  cleared := invariant.cleared

/-- What has been seen in the steps of a run. -/
def seen (labels : List RpcLabel) : List RpcObservation := labels.flatMap RpcLabel.observed

/-- As long as every request comes over a connection opened since the queues object was last
    replaced, requests and responses are paired without loss. -/
theorem rpc_pairs_without_loss (labels : List RpcLabel) (s : PayzTesterRpc)
    (run : Run CurrentStep payzTesterRpcNew labels s) : RpcPairs (seen labels) s := by
  have one : ∀ past s label t, RpcInvariant (seen past) s → CurrentStep s label t →
      RpcInvariant (seen (past ++ [label])) t := by
    intro past s label t invariant step
    have last : seen (past ++ [label]) = seen past ++ label.observed := by simp [seen]
    rw [last]
    exact invariant.step step
  have start : RpcInvariant (seen []) payzTesterRpcNew := rpcInvariant_new
  have invariant : RpcInvariant (seen ([] ++ labels)) s :=
    run.history (P := fun past s => RpcInvariant (seen past) s) one start
  exact invariant.pairs

/-- A request over the only connection, and a response for it. -/
theorem rpc_pairs_without_loss_once :
    ∃ labels s, Run CurrentStep payzTesterRpcNew labels s ∧ RpcPairs (seen labels) s ∧
      answers (seen labels) 1 "getinfo".toList = [7] := by
  let tok : Json := .object [] [("method".toList, .string "getinfo".toList),
    ("id".toList, .primitive "7".toList)]
  let opened := payzTesterRpcListenfd payzTesterRpcNew 3
  let conn : PayzTesterRpcConn := ⟨1, 0, 3, fun _ => []⟩
  let asked := payzTesterRpcConnProcess opened conn "getinfo".toList 7 none
  let added := payzTesterRpcAddResponse asked.1 "getinfo".toList "1".toList
  have scanned : scanRequest tok = some ("getinfo".toList, 7) := by decide +kernel
  have opens : opened.conns = [conn] := rfl
  have run : Run CurrentStep payzTesterRpcNew
      [⟨.opens 3, []⟩, ⟨.request 3 tok none, asked.2⟩,
        ⟨.addResponse "getinfo".toList "1".toList, added.2⟩] added.1 := by
    refine .cons (t := opened) ⟨rfl, trivial⟩ (.cons (t := asked.1) ⟨?_, ?_⟩
      (.cons (t := added.1) ⟨rfl, trivial⟩ .nil))
    · show PayzTesterRpc.step opened (.request 3 tok none) = some asked
      rw [PayzTesterRpc.step, opens, scanned]
      rfl
    · intro method id _ _ c member _
      rw [opens, List.mem_singleton] at member
      rw [member]
      rfl
  exact ⟨_, _, run, rpc_pairs_without_loss _ _ run, by decide +kernel⟩

/-- A connection opened before the queues object is replaced still points to the old one: its
    request waits although a response does. -/
theorem rpc_pairs_fails_after_clear :
    ∃ labels s, Run PayzTesterRpc.Step payzTesterRpcNew labels s ∧
      labels.map RpcLabel.event = [.opens 3, .clear, .addResponse "getinfo".toList "1".toList,
        .request 3 (.object [] [("method".toList, .string "getinfo".toList),
          ("id".toList, .primitive "7".toList)]) none] ∧
      s.conns.map (fun conn => conn.requests "getinfo".toList) = [[7]] ∧
      s.queues.responses "getinfo".toList ≠ [] ∧ ¬ RpcPairs (seen labels) s := by
  let tok : Json := .object [] [("method".toList, .string "getinfo".toList),
    ("id".toList, .primitive "7".toList)]
  let opened := payzTesterRpcListenfd payzTesterRpcNew 3
  let conn : PayzTesterRpcConn := ⟨1, 0, 3, fun _ => []⟩
  let cleared := payzTesterRpcClear opened
  let added := payzTesterRpcAddResponse cleared.1 "getinfo".toList "1".toList
  let asked := payzTesterRpcConnProcess added.1 conn "getinfo".toList 7 none
  have scanned : scanRequest tok = some ("getinfo".toList, 7) := by decide +kernel
  have opens : added.1.conns = [conn] := rfl
  have run : Run PayzTesterRpc.Step payzTesterRpcNew
      [⟨.opens 3, []⟩, ⟨.clear, cleared.2⟩, ⟨.addResponse "getinfo".toList "1".toList, added.2⟩,
        ⟨.request 3 tok none, asked.2⟩] asked.1 := by
    refine .cons (t := opened) rfl (.cons (t := cleared.1) rfl (.cons (t := added.1) rfl
      (.cons (t := asked.1) ?_ .nil)))
    show PayzTesterRpc.step added.1 (.request 3 tok none) = some asked
    rw [PayzTesterRpc.step, opens, scanned]
    rfl
  have waits : asked.1.conns.map (fun conn => conn.requests "getinfo".toList) = [[7]] := by
    decide +kernel
  have queued : asked.1.queues.responses "getinfo".toList ≠ [] := by decide +kernel
  refine ⟨_, _, run, rfl, waits, queued, fun pairs => ?_⟩
  obtain ⟨c, member, one⟩ := List.mem_map.mp (waits ▸ List.mem_singleton_self [7])
  rcases pairs.rendezvous c member "getinfo".toList with idle | empty
  · rw [idle] at one
    cases one
  · exact queued empty

end Payz
