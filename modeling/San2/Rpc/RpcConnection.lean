import San2.Library.Execution
import San2.Rpc.CIRpcChannel

/-!
# Remote calls over one connection

`CRpcInvoker` packs the arguments of a function and sends them under its
identifier; for a synchronous function it then waits for a response.
`CRpcExecutor` looks the identifier up in two tables, runs what it finds and
answers only calls of synchronous functions. The two sides run concurrently over
a connection that keeps datagrams in order, and are compared with a program that
calls the functions directly.
-/

namespace San2.Rpc

open Utils

/-- The datagrams that are on their way in each direction. -/
structure Link where
  toExecutor : List Bytes
  toInvoker : List Bytes
  deriving DecidableEq

/-- The end of the connection that invokes; it waits while nothing has arrived. -/
def invokerChannel : CIRpcChannel Link where
  sendDatagram data := fun link =>
    some (true, { link with toExecutor := link.toExecutor ++ [data] })
  recvDatagram := fun link =>
    match link.toInvoker with
    | [] => none
    | data :: rest => some ((true, data), { link with toInvoker := rest })

/-- The end of the connection that executes. -/
def executorChannel : CIRpcChannel Link where
  sendDatagram data := fun link =>
    some (true, { link with toInvoker := link.toInvoker ++ [data] })
  recvDatagram := fun link =>
    match link.toExecutor with
    | [] => none
    | data :: rest => some ((true, data), { link with toExecutor := rest })

/-- An object on which `invokeFunction` is called. -/
structure CIRpcFunctionOut where
  getUniqueId : UInt32
  /-- The packed arguments, or none when `pack` fails. -/
  pack : Option Bytes

/-- An object on which `invokeSyncFunction` is called. -/
structure CIRpcSyncFunctionOut where
  getUniqueId : UInt32
  pack : Option Bytes
  parseResponse : Bytes → Bool

namespace CRpcInvoker

/-- `CRpcInvoker::invokeFunction` -/
def invokeFunction (host : ByteOrder) (func : CIRpcFunctionOut) : StateT Link Option Bool :=
  match func.pack with
  | none => return false
  | some b => invokerChannel.sendData host func.getUniqueId b

/-- The part of `invokeSyncFunction` in front of the wait. -/
def sendRequest (host : ByteOrder) (syncFunc : CIRpcSyncFunctionOut) : StateT Link Option Bool :=
  match syncFunc.pack with
  | none => return false
  | some b => invokerChannel.sendData host syncFunc.getUniqueId b

/-- The rest of `invokeSyncFunction`. The identifier in the response overwrites a
local variable and is not looked at. -/
def awaitResponse (host : ByteOrder) (syncFunc : CIRpcSyncFunctionOut) :
    StateT Link Option (Bool × Bytes) := do
  let (ok, _, b) ← invokerChannel.recvData host syncFunc.getUniqueId
  if !ok then return (false, b)
  return (syncFunc.parseResponse b, b)

/-- The whole function, for a caller that nothing interrupts. -/
def invokeSyncFunction (host : ByteOrder) (syncFunc : CIRpcSyncFunctionOut) :
    StateT Link Option Bool := do
  if !(← sendRequest host syncFunc) then return false
  return (← awaitResponse host syncFunc).1

end CRpcInvoker

/-- A function object of the executor. The objects and all that they work on are
one state in `ω`. -/
structure CIRpcFunctionIn (ω : Type) where
  unpack : Bytes → ω → Bool × ω
  call : ω → ω

/-- A function with a response. -/
structure CIRpcSyncFunctionIn (ω : Type) extends CIRpcFunctionIn ω where
  getResponse : ω → Bytes × ω

/-- `RpcError` -/
inductive RpcError
  | success
  | failure
  | terminated
  | timeout
  | functionNotFound
  | unpackError
  | packError
  deriving DecidableEq, Repr

/-- The two tables of an executor. -/
structure CRpcExecutor (ω : Type) where
  m_functions : List (UInt32 × CIRpcFunctionIn ω)
  m_syncFunctions : List (UInt32 × CIRpcSyncFunctionIn ω)

/-- What a running executor works on, with a record of the requests whose
functions it has run. -/
structure ExecutorState (ω : Type) where
  link : Link
  world : ω
  executed : List (UInt32 × Bytes)

namespace CRpcExecutor

variable {ω : Type} (executor : CRpcExecutor ω)

/-- Registration keeps an entry that is already there and then returns false. -/
def registerFunction (uniqueId : UInt32) (func : CIRpcFunctionIn ω) : Bool × CRpcExecutor ω :=
  if (executor.m_functions.lookup uniqueId).isSome then (false, executor)
  else (true, { executor with m_functions := (uniqueId, func) :: executor.m_functions })

/-- `CRpcExecutor::registerSyncFunction` -/
def registerSyncFunction (uniqueId : UInt32) (syncFunc : CIRpcSyncFunctionIn ω) :
    Bool × CRpcExecutor ω :=
  if (executor.m_syncFunctions.lookup uniqueId).isSome then (false, executor)
  else (true, { executor with m_syncFunctions := (uniqueId, syncFunc) :: executor.m_syncFunctions })

/-- `CRpcExecutor::findFunction` -/
def findFunction (uniqueId : UInt32) : Option (CIRpcFunctionIn ω) :=
  executor.m_functions.lookup uniqueId

/-- `CRpcExecutor::findSyncFunction` -/
def findSyncFunction (uniqueId : UInt32) : Option (CIRpcSyncFunctionIn ω) :=
  executor.m_syncFunctions.lookup uniqueId

/-- `CRpcExecutor::executeFunction` -/
def executeFunction (host : ByteOrder) (uniqueId : UInt32) (data : Bytes) :
    StateT (ExecutorState ω) Option RpcError := fun s =>
  match executor.findFunction uniqueId with
  | some func =>
    let (ok, world) := func.unpack data s.world
    if !ok then some (.unpackError, { s with world := world })
    else some (.success, { s with
      world := func.call world
      executed := s.executed ++ [(uniqueId, data)] })
  | none =>
    match executor.findSyncFunction uniqueId with
    | some syncFunc =>
      let (ok, world) := syncFunc.unpack data s.world
      if !ok then some (.unpackError, { s with world := world })
      else
        let (response, world) := syncFunc.getResponse (syncFunc.call world)
        match executorChannel.sendData host uniqueId response s.link with
        | none => none
        | some (sent, link) => some (if sent then .success else .failure,
            { link := link, world := world, executed := s.executed ++ [(uniqueId, data)] })
    | none => some (.functionNotFound, s)

/-- One turn of the loop in `run`; false when `recvData` fails and the loop ends.
An error of `executeFunction` is only logged. -/
def runOnce (host : ByteOrder) : StateT (ExecutorState ω) Option Bool := fun s =>
  match executorChannel.recvData host 0 s.link with
  | none => none
  | some ((ok, functionId, b), link) =>
    if !ok then some (false, { s with link := link })
    else
      match executor.executeFunction host functionId b { s with link := link } with
      | none => none
      | some (_, s) => some (true, s)

end CRpcExecutor

variable {ω : Type} (executor : CRpcExecutor ω)

/-- Call a function directly on the given state: the arguments are set, the
function runs, and a synchronous one gives a response. -/
def directCall (request : UInt32 × Bytes) (world : ω) : ω × Option Bytes :=
  match executor.findFunction request.1 with
  | some func => (func.call (func.unpack request.2 world).2, none)
  | none =>
    match executor.findSyncFunction request.1 with
    | some syncFunc =>
      let (response, world) :=
        syncFunc.getResponse (syncFunc.call (syncFunc.unpack request.2 world).2)
      (world, some response)
    | none => (world, none)

/-- The state after direct calls in order, and the response to each. -/
def directCalls : List (UInt32 × Bytes) → ω → ω × List (Option Bytes)
  | [], world => (world, [])
  | request :: requests, world =>
    let (world, response) := directCall executor request world
    let (world, responses) := directCalls requests world
    (world, response :: responses)

/-- A call that a program makes on the invoker. -/
inductive Call
  | async (func : CIRpcFunctionOut)
  | sync (syncFunc : CIRpcSyncFunctionOut)

/-- What the call asks the executor to do: nothing if its arguments cannot be packed. -/
def Call.request : Call → Option (UInt32 × Bytes)
  | .async func => func.pack.map fun b => (func.getUniqueId, b)
  | .sync syncFunc => syncFunc.pack.map fun b => (syncFunc.getUniqueId, b)

/-- A synchronous call that has returned: the position of its request among all
requests, the response that it parsed and the result. -/
structure Answer where
  syncFunc : CIRpcSyncFunctionOut
  position : ℕ
  response : Bytes
  result : Bool

/-- The state of both sides. `sent` records the requests of the invoker and
`answers` the synchronous calls that have got a response. -/
structure Connection (ω : Type) where
  /-- The synchronous call that the invoker waits in. -/
  waiting : Option CIRpcSyncFunctionOut
  server : ExecutorState ω
  sent : List (UInt32 × Bytes)
  answers : List Answer

/-- What the two ends of a connection do. -/
inductive Action
  /-- The program calls `invokeFunction`, or `invokeSyncFunction` up to its wait. -/
  | invoke (call : Call)
  /-- A waiting call takes a response. -/
  | receive
  /-- The executor makes one turn of its loop. -/
  | execute

/-- One step of either side. The invoker is a single thread: while a call waits,
it makes no other. -/
def Connection.step (invokerHost executorHost : ByteOrder) (s : Connection ω) :
    Action → Option (Connection ω)
  | .invoke (.async func) =>
    match s.waiting with
    | some _ => none
    | none =>
      (CRpcInvoker.invokeFunction invokerHost func s.server.link).map fun (ok, link) =>
        { s with
          server := { s.server with link := link }
          sent := if ok then s.sent ++ (Call.async func).request.toList else s.sent }
  | .invoke (.sync syncFunc) =>
    match s.waiting with
    | some _ => none
    | none =>
      (CRpcInvoker.sendRequest invokerHost syncFunc s.server.link).map fun (ok, link) =>
        { s with
          waiting := if ok then some syncFunc else none
          server := { s.server with link := link }
          sent := if ok then s.sent ++ (Call.sync syncFunc).request.toList else s.sent }
  | .receive =>
    match s.waiting with
    | none => none
    | some syncFunc =>
      (CRpcInvoker.awaitResponse invokerHost syncFunc s.server.link).map fun ((result, b), link) =>
        { s with
          waiting := none
          server := { s.server with link := link }
          answers := s.answers ++ [⟨syncFunc, s.sent.length - 1, b, result⟩] }
  | .execute =>
    (executor.runOnce executorHost s.server).map fun (_, server) => { s with server := server }

/-- A new connection to an executor in the given state. -/
def Connection.start (world : ω) : Connection ω :=
  ⟨none, ⟨⟨[], []⟩, world, []⟩, [], []⟩

/-- The executor finds the function in exactly one of its tables under an
identifier that can be sent, and the function accepts the packed arguments. -/
structure Accepted (request : UInt32 × Bytes) : Prop where
  id_le : request.1 ≤ sanRpcMaxFid
  oneTable : (executor.findFunction request.1).isSome ≠
    (executor.findSyncFunction request.1).isSome
  unpacks : ∀ {func}, executor.findFunction request.1 = some func →
    ∀ world, (func.unpack request.2 world).1 = true
  unpacksSync : ∀ {syncFunc}, executor.findSyncFunction request.1 = some syncFunc →
    ∀ world, (syncFunc.unpack request.2 world).1 = true

/-- The executor runs the function without answering. -/
def IsAsync (request : UInt32 × Bytes) : Prop :=
  (executor.findFunction request.1).isSome = true

/-- The requests of an action. -/
def Action.requests : Action → List (UInt32 × Bytes)
  | .invoke call => call.request.toList
  | _ => []

/-- Every function that is invoked is accepted by the executor. -/
def Action.Accepted (a : Action) : Prop :=
  ∀ request ∈ a.requests, Rpc.Accepted executor request

/-- In addition `invokeFunction` is used only for functions of the table that the
executor does not answer. -/
def Action.Matching (a : Action) : Prop :=
  a.Accepted executor ∧ ∀ func, a = .invoke (.async func) →
    ∀ request ∈ a.requests, IsAsync executor request

/-- Direct calls, first some and then others. -/
theorem directCalls_append (first second : List (UInt32 × Bytes)) (world : ω) :
    directCalls executor (first ++ second) world =
      ((directCalls executor second (directCalls executor first world).1).1,
        (directCalls executor first world).2 ++
          (directCalls executor second (directCalls executor first world).1).2) := by
  induction first generalizing world with
  | nil => rfl
  | cons request first ih =>
    simp only [List.cons_append, directCalls, ih]

/-- Each request has a response or none. -/
@[simp] theorem length_directCalls (requests : List (UInt32 × Bytes)) (world : ω) :
    (directCalls executor requests world).2.length = requests.length := by
  induction requests generalizing world with
  | nil => rfl
  | cons request requests ih => simp only [directCalls, List.length_cons, ih]

/-- The responses to the first requests do not depend on the later ones. -/
theorem getElem?_directCalls_append {first : List (UInt32 × Bytes)}
    (second : List (UInt32 × Bytes)) {world : ω} {position : ℕ} {response : Option Bytes}
    (h : (directCalls executor first world).2[position]? = some response) :
    (directCalls executor (first ++ second) world).2[position]? = some response := by
  obtain ⟨hlt, -⟩ := List.getElem?_eq_some_iff.mp h
  rw [directCalls_append, List.getElem?_append_left hlt, h]

/-- The executor waits while nothing has arrived. -/
theorem runOnce_nil (host : ByteOrder) {s : ExecutorState ω} (hlink : s.link.toExecutor = []) :
    executor.runOnce host s = none := by
  simp [CRpcExecutor.runOnce, CIRpcChannel.recvData, executorChannel, hlink, bind, StateT.bind]

/-- An accepted request is executed as a direct call, and the response, if there
is one, is sent back under the identifier of the request. -/
theorem runOnce_accepted (host : ByteOrder) {request : UInt32 × Bytes}
    (h : Accepted executor request) {s : ExecutorState ω} {rest : List Bytes}
    (hlink : s.link.toExecutor = CIRpcChannel.datagram request.1 request.2 :: rest) :
    executor.runOnce host s = some (true,
      { link := { toExecutor := rest
                  toInvoker := s.link.toInvoker ++
                    ((directCall executor request s.world).2.map
                      (CIRpcChannel.datagram request.1)).toList }
        world := (directCall executor request s.world).1
        executed := s.executed ++ [request] }) := by
  have hdatagram : executorChannel.recvDatagram s.link = some
      ((true, CIRpcChannel.datagram request.1 request.2),
        { s.link with toExecutor := rest }) := by
    simp only [executorChannel, hlink]
  have hrecv := executorChannel.recvData_datagram host 0 h.id_le hdatagram
  simp only [CRpcExecutor.runOnce, hrecv, Bool.not_true, Bool.false_eq_true, if_false]
  cases hfind : executor.findFunction request.1 with
  | some func =>
    have hunpack := h.unpacks hfind s.world
    simp [CRpcExecutor.executeFunction, directCall, hfind, hunpack]
  | none =>
    cases hsync : executor.findSyncFunction request.1 with
    | none =>
      have htable := h.oneTable
      simp [hfind, hsync] at htable
    | some syncFunc =>
      have hunpack := h.unpacksSync hsync s.world
      simp only [CRpcExecutor.executeFunction, directCall, hfind, hsync, hunpack, Bool.not_true,
        Bool.false_eq_true, if_false, executorChannel.sendData_of_le host h.id_le]
      rfl

/-! ## The invariant of a connection -/

/-- Where the invoker stands: which call it waits in, which requests have been
executed, which are pending, and which datagrams are on their way back. There is
never more than one of those, and it answers the call that waits. -/
inductive Phase (world₀ : ω) : Option CIRpcSyncFunctionOut →
    List (UInt32 × Bytes) → List (UInt32 × Bytes) → List Bytes → Prop
  | idle {executed pending} :
    (∀ request ∈ pending, IsAsync executor request) → Phase world₀ none executed pending []
  | requested {executed front syncFunc b} :
    syncFunc.pack = some b → (∀ request ∈ front, IsAsync executor request) →
      Phase world₀ (some syncFunc) executed (front ++ [(syncFunc.getUniqueId, b)]) []
  | answered {executed syncFunc b response} :
    syncFunc.pack = some b →
      (directCalls executor (executed ++ [(syncFunc.getUniqueId, b)]) world₀).2[executed.length]? =
        some (some response) →
      Phase world₀ (some syncFunc) (executed ++ [(syncFunc.getUniqueId, b)]) []
        [CIRpcChannel.datagram syncFunc.getUniqueId response]
  | unanswered {executed syncFunc b} :
    syncFunc.pack = some b → IsAsync executor (syncFunc.getUniqueId, b) →
      Phase world₀ (some syncFunc) (executed ++ [(syncFunc.getUniqueId, b)]) [] []

/-- An answer that belongs to its call: the request at its position is the one of
the call, and the response is what a direct call gives there. -/
structure Answer.Own (answer : Answer) (world₀ : ω) (sent : List (UInt32 × Bytes)) : Prop where
  request : ∃ b, answer.syncFunc.pack = some b ∧
    sent[answer.position]? = some (answer.syncFunc.getUniqueId, b)
  response : (directCalls executor sent world₀).2[answer.position]? = some (some answer.response)
  result : answer.result = answer.syncFunc.parseResponse answer.response

/-- An answer stays with its request when more are sent. -/
theorem Answer.Own.append {answer : Answer} {world₀ : ω} {sent : List (UInt32 × Bytes)}
    (h : answer.Own executor world₀ sent) (later : List (UInt32 × Bytes)) :
    answer.Own executor world₀ (sent ++ later) := by
  obtain ⟨⟨b, hpack, hrequest⟩, hresponse, hresult⟩ := h
  obtain ⟨hlt, -⟩ := List.getElem?_eq_some_iff.mp hrequest
  refine ⟨⟨b, hpack, ?_⟩, getElem?_directCalls_append executor later hresponse, hresult⟩
  rw [List.getElem?_append_left hlt, hrequest]

/-- What holds in every state of a connection. -/
structure Connection.Inv (world₀ : ω) (pending : List (UInt32 × Bytes)) (s : Connection ω) :
    Prop where
  accepted : ∀ request ∈ s.sent, Accepted executor request
  sent : s.sent = s.server.executed ++ pending
  link : s.server.link.toExecutor =
    pending.map fun request => CIRpcChannel.datagram request.1 request.2
  world : s.server.world = (directCalls executor s.server.executed world₀).1
  phase : Phase executor world₀ s.waiting s.server.executed pending s.server.link.toInvoker
  answers : ∀ answer ∈ s.answers, answer.Own executor world₀ s.sent

variable {executor}

/-- At first nothing has been sent. -/
theorem Connection.inv_start (world₀ : ω) :
    (Connection.start world₀).Inv executor world₀ [] where
  accepted _ h := absurd h List.not_mem_nil
  sent := rfl
  link := rfl
  world := rfl
  phase := .idle fun _ h => absurd h List.not_mem_nil
  answers _ h := absurd h List.not_mem_nil

/-- A request of the invoker joins the pending ones. -/
theorem sendData_invoker (host : ByteOrder) {request : UInt32 × Bytes}
    (h : Accepted executor request) (link : Link) :
    invokerChannel.sendData host request.1 request.2 link =
      some (true, { link with toExecutor := link.toExecutor ++
        [CIRpcChannel.datagram request.1 request.2] }) := by
  rw [invokerChannel.sendData_of_le host h.id_le]
  rfl

/-- Sending a request keeps everything but the phase. -/
theorem Connection.Inv.send {world₀ : ω} {pending : List (UInt32 × Bytes)} {s : Connection ω}
    (h : s.Inv executor world₀ pending) {request : UInt32 × Bytes}
    (hrequest : Accepted executor request) {waiting : Option CIRpcSyncFunctionOut}
    (hphase : Phase executor world₀ waiting s.server.executed (pending ++ [request])
      s.server.link.toInvoker) :
    Connection.Inv executor world₀ (pending ++ [request])
      { s with
        waiting := waiting
        server := { s.server with link := { s.server.link with
          toExecutor := s.server.link.toExecutor ++
            [CIRpcChannel.datagram request.1 request.2] } }
        sent := s.sent ++ [request] } where
  accepted r hr := by
    rcases List.mem_append.mp hr with hr | hr
    · exact h.accepted r hr
    · rwa [List.mem_singleton.mp hr]
  sent := by
    change s.sent ++ [request] = _
    rw [h.sent, List.append_assoc]
  link := by
    change s.server.link.toExecutor ++ _ = _
    rw [h.link, List.map_append]
    rfl
  world := h.world
  phase := hphase
  answers answer ha := (h.answers answer ha).append executor [request]

/-- A function without a response gives none. -/
theorem directCall_of_isAsync {request : UInt32 × Bytes} (h : IsAsync executor request)
    (world : ω) : (directCall executor request world).2 = none := by
  obtain ⟨func, hfind⟩ := Option.isSome_iff_exists.mp h
  simp only [directCall, hfind]

/-- A synchronous function gives a response. -/
theorem directCall_of_not_isAsync {request : UInt32 × Bytes} (h : Accepted executor request)
    (hsync : ¬ IsAsync executor request) (world : ω) :
    ∃ response, (directCall executor request world).2 = some response := by
  have hnone : executor.findFunction request.1 = none := by simpa [IsAsync] using hsync
  have htable := h.oneTable
  rw [hnone] at htable
  obtain ⟨syncFunc, hfind⟩ : ∃ syncFunc, executor.findSyncFunction request.1 = some syncFunc :=
    Option.ne_none_iff_exists'.mp (by simpa using htable.symm)
  simp only [directCall, hnone, hfind]
  exact ⟨_, rfl⟩

/-- The first pending request is executed. If it is a synchronous one, it is the
request of the waiting call, and its response is the only datagram on the way. -/
theorem Phase.execute {world₀ : ω} {waiting : Option CIRpcSyncFunctionOut}
    {executed pending : List (UInt32 × Bytes)} {request : UInt32 × Bytes}
    {toInvoker : List Bytes} (hrequest : Accepted executor request)
    (h : Phase executor world₀ waiting executed (request :: pending) toInvoker) :
    Phase executor world₀ waiting (executed ++ [request]) pending
      (toInvoker ++ ((directCall executor request (directCalls executor executed world₀).1).2.map
        (CIRpcChannel.datagram request.1)).toList) := by
  generalize hlist : request :: pending = list at h
  cases h with
  | idle hasync =>
    subst hlist
    rw [directCall_of_isAsync (hasync request List.mem_cons_self)]
    exact .idle fun r hr => hasync r (List.mem_cons_of_mem _ hr)
  | @requested _ front syncFunc b hpack hasync =>
    cases front with
    | nil =>
      obtain ⟨rfl, rfl⟩ := List.cons.inj hlist
      by_cases hown : IsAsync executor (syncFunc.getUniqueId, b)
      · rw [directCall_of_isAsync hown]
        exact .unanswered hpack hown
      · obtain ⟨response, hresponse⟩ := directCall_of_not_isAsync hrequest hown
          (directCalls executor executed world₀).1
        rw [hresponse]
        refine .answered hpack ?_
        rw [directCalls_append, List.getElem?_append_right (by simp)]
        simp [directCalls, hresponse]
    | cons r front =>
      obtain ⟨rfl, rfl⟩ := List.cons.inj hlist
      rw [directCall_of_isAsync (hasync request List.mem_cons_self)]
      exact .requested hpack fun r hr => hasync r (List.mem_cons_of_mem _ hr)
  | answered => exact absurd hlist (List.cons_ne_nil _ _)
  | unanswered => exact absurd hlist (List.cons_ne_nil _ _)

/-- A turn of the executor on a connection with a pending request. -/
theorem Connection.Inv.execute (host : ByteOrder) {world₀ : ω} {request : UInt32 × Bytes}
    {pending : List (UInt32 × Bytes)} {s : Connection ω}
    (h : s.Inv executor world₀ (request :: pending)) :
    ∃ server, executor.runOnce host s.server = some (true, server) ∧
      Connection.Inv executor world₀ pending { s with server := server } := by
  have hrequest : Accepted executor request := h.accepted request (by simp [h.sent])
  refine ⟨_, runOnce_accepted executor host hrequest h.link, ?_⟩
  have hphase := h.phase.execute hrequest
  rw [← h.world] at hphase
  refine ⟨h.accepted, ?_, rfl, ?_, hphase, h.answers⟩
  · simp [h.sent]
  · simp [directCalls_append, directCalls, h.world]

/-- A datagram on its way back is the response to the waiting call, and nothing
else is under way. -/
theorem Phase.receive {world₀ : ω} {syncFunc : CIRpcSyncFunctionOut}
    {executed pending : List (UInt32 × Bytes)} {data : Bytes} {rest : List Bytes}
    (h : Phase executor world₀ (some syncFunc) executed pending (data :: rest)) :
    ∃ front b response, syncFunc.pack = some b ∧
      executed = front ++ [(syncFunc.getUniqueId, b)] ∧ pending = [] ∧ rest = [] ∧
      data = CIRpcChannel.datagram syncFunc.getUniqueId response ∧
      (directCalls executor executed world₀).2[front.length]? = some (some response) := by
  cases h with
  | @answered front _ b response hpack hresponse =>
    exact ⟨front, b, response, hpack, rfl, rfl, rfl, rfl, hresponse⟩

/-- A call waits while nothing has arrived. -/
theorem awaitResponse_nil (host : ByteOrder) (syncFunc : CIRpcSyncFunctionOut) {link : Link}
    (hlink : link.toInvoker = []) : CRpcInvoker.awaitResponse host syncFunc link = none := by
  simp [CRpcInvoker.awaitResponse, CIRpcChannel.recvData, invokerChannel, hlink, bind, StateT.bind]

/-- A waiting call takes its own response and parses it. -/
theorem awaitResponse_datagram (host : ByteOrder) {syncFunc : CIRpcSyncFunctionOut}
    (hid : syncFunc.getUniqueId ≤ sanRpcMaxFid) {link : Link} {response : Bytes}
    {rest : List Bytes}
    (h : link.toInvoker = CIRpcChannel.datagram syncFunc.getUniqueId response :: rest) :
    CRpcInvoker.awaitResponse host syncFunc link =
      some ((syncFunc.parseResponse response, response), { link with toInvoker := rest }) := by
  have hdatagram : invokerChannel.recvDatagram link = some
      ((true, CIRpcChannel.datagram syncFunc.getUniqueId response),
        { link with toInvoker := rest }) := by
    simp only [invokerChannel, h]
  have hrecv := invokerChannel.recvData_datagram host syncFunc.getUniqueId hid hdatagram
  simp only [CRpcInvoker.awaitResponse, bind, StateT.bind, hrecv]
  rfl

/-- A call that waits goes on only with its own response. -/
theorem Connection.Inv.receive {invokerHost executorHost : ByteOrder} {world₀ : ω}
    {pending : List (UInt32 × Bytes)} {s s' : Connection ω}
    (h : s.Inv executor world₀ pending)
    (hstep : s.step executor invokerHost executorHost .receive = some s') :
    s'.Inv executor world₀ pending ∧ s'.sent = s.sent := by
  cases hwaiting : s.waiting with
  | none => simp [Connection.step, hwaiting] at hstep
  | some syncFunc =>
    simp only [Connection.step, hwaiting] at hstep
    cases hlink : s.server.link.toInvoker with
    | nil =>
      rw [awaitResponse_nil invokerHost syncFunc hlink] at hstep
      cases hstep
    | cons data rest =>
      have hphase := h.phase
      rw [hwaiting, hlink] at hphase
      obtain ⟨front, b, response, hpack, hexecuted, rfl, rfl, rfl, hresponse⟩ := hphase.receive
      have hsent : s.sent = front ++ [(syncFunc.getUniqueId, b)] := by
        rw [h.sent, hexecuted, List.append_nil]
      have hid : syncFunc.getUniqueId ≤ sanRpcMaxFid :=
        (h.accepted (syncFunc.getUniqueId, b) (by simp [hsent])).id_le
      rw [awaitResponse_datagram invokerHost hid hlink] at hstep
      obtain rfl := Option.some.inj hstep
      refine ⟨⟨h.accepted, h.sent, h.link, h.world,
        .idle fun _ hr => absurd hr List.not_mem_nil, ?_⟩, rfl⟩
      intro answer hanswer
      rcases List.mem_append.mp hanswer with hanswer | hanswer
      · exact h.answers answer hanswer
      · rw [List.mem_singleton.mp hanswer]
        have hposition : s.sent.length - 1 = front.length := by simp [hsent]
        refine ⟨⟨b, hpack, ?_⟩, ?_, rfl⟩
        · rw [hposition, hsent, List.getElem?_append_right (le_refl _), Nat.sub_self]
          rfl
        · rw [hposition, hsent, ← hexecuted]
          exact hresponse

/-- While no call waits, nothing is on its way back and nothing that is pending will be
answered. -/
theorem Connection.Inv.quiet {world₀ : ω} {pending : List (UInt32 × Bytes)} {s : Connection ω}
    (h : s.Inv executor world₀ pending) (hwaiting : s.waiting = none) :
    s.server.link.toInvoker = [] ∧ ∀ request ∈ pending, IsAsync executor request := by
  have hphase := h.phase
  rw [hwaiting] at hphase
  generalize s.server.link.toInvoker = toInvoker at hphase
  cases hphase with
  | idle hasync => exact ⟨rfl, hasync⟩

/-- A call on an idle invoker sends its request, if it has one. -/
theorem Connection.Inv.invoke {invokerHost executorHost : ByteOrder} {world₀ : ω}
    {pending : List (UInt32 × Bytes)} {s s' : Connection ω} {call : Call}
    (h : s.Inv executor world₀ pending) (ha : (Action.invoke call).Matching executor)
    (hstep : s.step executor invokerHost executorHost (.invoke call) = some s') :
    (∃ pending, s'.Inv executor world₀ pending) ∧
      s'.sent = s.sent ++ (Action.invoke call).requests := by
  obtain ⟨haccepted, hmatching⟩ := ha
  cases hwaiting : s.waiting with
  | some syncFunc => cases call <;> simp [Connection.step, hwaiting] at hstep
  | none =>
    obtain ⟨hquiet, hasync⟩ := h.quiet hwaiting
    cases call with
    | async func =>
      simp only [Connection.step, hwaiting, CRpcInvoker.invokeFunction] at hstep
      cases hpack : func.pack with
      | none =>
        simp only [hpack] at hstep
        obtain rfl := Option.some.inj hstep
        rw [← hwaiting]
        exact ⟨⟨pending, h⟩, by simp [Action.requests, Call.request, hpack]⟩
      | some b =>
        have hmem : (func.getUniqueId, b) ∈ (Action.invoke (.async func)).requests := by
          simp [Action.requests, Call.request, hpack]
        have hrequest := haccepted _ hmem
        simp only [hpack, sendData_invoker invokerHost hrequest, Option.map_some, if_true,
          Call.request, Option.toList_some] at hstep
        obtain rfl := Option.some.inj hstep
        refine ⟨⟨pending ++ [(func.getUniqueId, b)], h.send hrequest ?_⟩,
          by simp [Action.requests, Call.request, hpack]⟩
        rw [hquiet]
        refine .idle fun request hr => ?_
        rcases List.mem_append.mp hr with hr | hr
        · exact hasync request hr
        · rw [List.mem_singleton.mp hr]
          exact hmatching func rfl _ hmem
    | sync syncFunc =>
      simp only [Connection.step, hwaiting, CRpcInvoker.sendRequest] at hstep
      cases hpack : syncFunc.pack with
      | none =>
        simp only [hpack] at hstep
        obtain rfl := Option.some.inj hstep
        rw [← hwaiting]
        exact ⟨⟨pending, h⟩, by simp [Action.requests, Call.request, hpack]⟩
      | some b =>
        have hmem : (syncFunc.getUniqueId, b) ∈ (Action.invoke (.sync syncFunc)).requests := by
          simp [Action.requests, Call.request, hpack]
        have hrequest := haccepted _ hmem
        simp only [hpack, sendData_invoker invokerHost hrequest, Option.map_some, if_true,
          Call.request, Option.toList_some] at hstep
        obtain rfl := Option.some.inj hstep
        refine ⟨⟨pending ++ [(syncFunc.getUniqueId, b)], h.send hrequest ?_⟩,
          by simp [Action.requests, Call.request, hpack]⟩
        rw [hquiet]
        exact .requested hpack hasync

/-- Every step with matching calls keeps the invariant and records its request. -/
theorem Connection.Inv.step {invokerHost executorHost : ByteOrder} {world₀ : ω}
    {s s' : Connection ω} {a : Action} (h : ∃ pending, s.Inv executor world₀ pending)
    (ha : a.Matching executor) (hstep : s.step executor invokerHost executorHost a = some s') :
    (∃ pending, s'.Inv executor world₀ pending) ∧ s'.sent = s.sent ++ a.requests := by
  obtain ⟨pending, h⟩ := h
  cases a with
  | execute =>
    simp only [Connection.step, Option.map_eq_some_iff] at hstep
    obtain ⟨⟨ok, server⟩, hrun, rfl⟩ := hstep
    cases pending with
    | nil =>
      have hlink : s.server.link.toExecutor = [] := h.link
      rw [runOnce_nil executor executorHost hlink] at hrun
      cases hrun
    | cons request pending =>
      obtain ⟨server', hrun', hinv⟩ := h.execute executorHost
      obtain ⟨-, rfl⟩ := Prod.mk.inj (Option.some.inj (hrun.symm.trans hrun'))
      exact ⟨⟨pending, hinv⟩, (List.append_nil _).symm⟩
  | receive =>
    obtain ⟨hinv, hsent⟩ := h.receive hstep
    exact ⟨⟨pending, hinv⟩, by simp [hsent, Action.requests]⟩
  | invoke call => exact h.invoke ha hstep

/-! ## The connection simulates direct calls -/

/-- What a program that has invoked the given requests may rely on. -/
structure Connection.SimulatesDirectCalls (executor : CRpcExecutor ω)
    (invokerHost executorHost : ByteOrder) (world₀ : ω) (invoked : List (UInt32 × Bytes))
    (s : Connection ω) : Prop where
  /-- Exactly the invoked functions have been requested, in the order of the calls. -/
  sent : s.sent = invoked
  /-- The executor has run the first of them, once each and in order. -/
  executed : s.server.executed <+: s.sent
  /-- Their effect is that of direct calls. -/
  world : s.server.world = (directCalls executor s.server.executed world₀).1
  /-- A synchronous call that has returned has parsed the response to its own request. -/
  answers : ∀ answer ∈ s.answers, answer.Own executor world₀ s.sent
  /-- The executor can go on until it has run all of them. -/
  complete : s.server.executed ≠ s.sent →
    (s.step executor invokerHost executorHost .execute).isSome = true
  /-- Then a call that waits for an answer can take it. -/
  answered : ∀ syncFunc, s.waiting = some syncFunc → s.server.executed = s.sent →
    (executor.findSyncFunction syncFunc.getUniqueId).isSome = true →
      (s.step executor invokerHost executorHost .receive).isSome = true

/-- What the invariant says of the direct calls. -/
theorem Connection.Inv.simulates {invokerHost executorHost : ByteOrder} {world₀ : ω}
    {pending : List (UInt32 × Bytes)} {s : Connection ω}
    (h : s.Inv executor world₀ pending) :
    s.SimulatesDirectCalls executor invokerHost executorHost world₀ s.sent where
  sent := rfl
  executed := ⟨pending, h.sent.symm⟩
  world := h.world
  answers := h.answers
  complete hne := by
    cases pending with
    | nil => exact absurd (by rw [h.sent, List.append_nil]) hne
    | cons request pending =>
      obtain ⟨server, hrun, -⟩ := h.execute executorHost
      simp only [Connection.step, hrun, Option.map_some, Option.isSome_some]
  answered syncFunc hwaiting hall hsync := by
    have hphase := h.phase
    have hpending : pending = [] := by
      have hsent := h.sent
      rw [← hall] at hsent
      exact List.self_eq_append_right.mp hsent
    have haccepted : ∀ b, (syncFunc.getUniqueId, b) ∈ s.sent →
        ¬ IsAsync executor (syncFunc.getUniqueId, b) := by
      intro b hb hasync
      exact (h.accepted _ hb).oneTable (hasync.trans hsync.symm)
    rw [hwaiting, hpending] at hphase
    generalize hlist : ([] : List (UInt32 × Bytes)) = list at hphase
    generalize hexecuted : s.server.executed = executed at hphase
    generalize htoInvoker : s.server.link.toInvoker = toInvoker at hphase
    cases hphase with
    | requested => exact absurd hlist.symm (by simp)
    | @answered front _ b response hpack hresponse =>
      have hid : syncFunc.getUniqueId ≤ sanRpcMaxFid :=
        (h.accepted (syncFunc.getUniqueId, b) (by rw [← hall, hexecuted]; simp)).id_le
      simp only [Connection.step, hwaiting, awaitResponse_datagram invokerHost hid htoInvoker,
        Option.map_some, Option.isSome_some]
    | @unanswered front _ b hpack hasync =>
      exact absurd hasync (haccepted b (by rw [← hall, hexecuted]; simp))

/-- However the two sides are interleaved, a program whose `invokeFunction` calls
name functions that the executor does not answer gets what direct calls give. -/
theorem connection_simulates_direct_calls (executor : CRpcExecutor ω)
    (invokerHost executorHost : ByteOrder) (world₀ : ω) (actions : List Action)
    (hactions : ∀ a ∈ actions, a.Matching executor) (s : Connection ω)
    (hrun : Execution.run (Connection.step executor invokerHost executorHost)
      (Connection.start world₀) actions = some s) :
    s.SimulatesDirectCalls executor invokerHost executorHost world₀
      (actions.flatMap Action.requests) := by
  have hstart : ∃ pending, (Connection.start world₀).Inv executor world₀ pending :=
    ⟨[], Connection.inv_start world₀⟩
  obtain ⟨pending, hinv⟩ := Execution.run_invariant
    (fun h ha hstep => (Connection.Inv.step h ha hstep).1) hactions hstart hrun
  have hsent : s.sent = actions.flatMap Action.requests := by
    have hlog := Execution.run_log Connection.sent Action.requests
      (fun h ha hstep => Connection.Inv.step h ha hstep) hactions hstart hrun
    rw [hlog]
    rfl
  rw [← hsent]
  exact hinv.simulates

/-- A function that takes no arguments and answers with its own number. -/
def numberFunction (number : UInt8) : CIRpcSyncFunctionIn Unit where
  unpack data world := (data = [], world)
  call world := world
  getResponse world := ([number], world)

/-- An executor that answers the calls of two functions. -/
def numberExecutor : CRpcExecutor Unit :=
  ⟨[], [(5, numberFunction 1), (6, numberFunction 2)]⟩

/-- Both functions of the example are accepted. -/
theorem accepted_numberExecutor {id : UInt32} (hid : id = 5 ∨ id = 6) :
    Accepted numberExecutor (id, []) := by
  rcases hid with rfl | rfl
  · refine ⟨by decide, by decide, ?_, ?_⟩
    · intro func hfind
      exact absurd hfind (by simp [CRpcExecutor.findFunction, numberExecutor])
    · intro syncFunc hfind world
      obtain rfl := Option.some.inj hfind
      rfl
  · refine ⟨by decide, by decide, ?_, ?_⟩
    · intro func hfind
      exact absurd hfind (by simp [CRpcExecutor.findFunction, numberExecutor])
    · intro syncFunc hfind world
      obtain rfl := Option.some.inj hfind
      rfl

/-- A synchronous call is answered with the number of its own function. -/
theorem connection_simulates_direct_calls_number :
    ∃ s, Execution.run (Connection.step numberExecutor .littleEndian .bigEndian)
        (Connection.start ())
        [.invoke (.sync ⟨6, some [], fun b => b = [2]⟩), .execute, .receive] = some s ∧
      s.SimulatesDirectCalls numberExecutor .littleEndian .bigEndian () [(6, [])] := by
  refine ⟨_, rfl, connection_simulates_direct_calls _ _ _ ()
    [.invoke (.sync ⟨6, some [], fun b => b = [2]⟩), .execute, .receive] ?_ _ rfl⟩
  intro a ha
  simp only [List.mem_cons, List.not_mem_nil, or_false] at ha
  rcases ha with rfl | rfl | rfl
  · refine ⟨?_, by rintro func ⟨⟩⟩
    intro request hrequest
    simp only [Action.requests, Call.request, Option.map_some, Option.toList_some,
      List.mem_singleton] at hrequest
    subst hrequest
    exact accepted_numberExecutor (Or.inr rfl)
  · exact ⟨fun _ h => absurd h List.not_mem_nil, by rintro func ⟨⟩⟩
  · exact ⟨fun _ h => absurd h List.not_mem_nil, by rintro func ⟨⟩⟩

/-- When `invokeFunction` names a function that the executor answers, the next
synchronous call parses that answer instead of its own. -/
theorem connection_mixes_answers :
    ∃ actions : List Action, (∀ a ∈ actions, a.Accepted numberExecutor) ∧
      ∃ s, Execution.run (Connection.step numberExecutor .littleEndian .littleEndian)
          (Connection.start ()) actions = some s ∧
        ¬ s.SimulatesDirectCalls numberExecutor .littleEndian .littleEndian ()
          (actions.flatMap Action.requests) := by
  refine ⟨[.invoke (.async ⟨5, some []⟩), .execute,
    .invoke (.sync ⟨6, some [], fun _ => true⟩), .execute, .receive], ?_, _, rfl, ?_⟩
  · intro a ha request hrequest
    simp only [List.mem_cons, List.not_mem_nil, or_false] at ha
    rcases ha with rfl | rfl | rfl | rfl | rfl <;>
      simp only [Action.requests, Call.request, Option.map_some, Option.toList_some,
        List.mem_singleton, List.not_mem_nil] at hrequest
    · subst hrequest
      exact accepted_numberExecutor (Or.inl rfl)
    · subst hrequest
      exact accepted_numberExecutor (Or.inr rfl)
  · intro h
    have hown := h.answers _ (List.mem_singleton.mpr rfl)
    have hresponse : (some (some [2]) : Option (Option Bytes)) = some (some [1]) := hown.response
    exact absurd hresponse (by decide)

end San2.Rpc
