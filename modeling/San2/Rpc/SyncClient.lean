import San2.Rpc.CRpcInvoker

/-!
# A program that makes one synchronous call after the other

The objects of the calls are all of one class, and the executor makes its turns while a call
waits. What the functions of the executor work on may be changed by others between the turns.
The calls, the turns and the results are recorded apart from each other, and shown to belong
together in the order in which they were made.
-/

namespace San2.Rpc

open Utils

/-- `asked` records the objects of the calls, `turns` what the functions of the executor worked
on before and after each of its turns, and `returned` the results with the objects as the calls
left them. -/
structure SyncClient (φ ω : Type) where
  /-- The object of the call that waits. -/
  waiting : Option φ
  server : ExecutorState ω
  asked : List φ
  turns : List (ω × ω)
  returned : List (Bool × φ)

/-- A call that has returned, with the turn that answered it. -/
structure SyncCall (φ ω : Type) where
  syncFunc : φ
  before : ω
  after : ω
  result : Bool × φ

namespace SyncClient

variable {φ ω : Type}

/-- What can happen between a program and an executor. -/
inductive Action (φ ω : Type)
  /-- The program calls `invokeSyncFunction`, which waits for the response. -/
  | call (syncFunc : φ)
  /-- The executor makes one turn of its loop. -/
  | execute
  /-- The call takes the response and returns. -/
  | receive
  /-- Others have changed what the functions of the executor work on. -/
  | change (world : ω)

/-- The state after an action; none if the action is not possible. -/
def step (executor : CRpcExecutor ω) (type : SyncFunctionOut φ)
    (invokerHost executorHost : ByteOrder) (s : SyncClient φ ω) :
    Action φ ω → Option (SyncClient φ ω)
  | .call syncFunc =>
    match s.waiting with
    | some _ => none
    | none =>
      (CRpcInvoker.requestSync invokerChannel invokerHost type syncFunc s.server.link).map
        fun (ok, link) =>
          { s with
            waiting := if ok then some syncFunc else none
            server := { s.server with link := link }
            asked := s.asked ++ [syncFunc]
            returned := if ok then s.returned else s.returned ++ [(false, syncFunc)] }
  | .execute =>
    (executor.runOnce executorHost s.server).map fun (_, server) =>
      { s with server := server, turns := s.turns ++ [(s.server.world, server.world)] }
  | .receive =>
    match s.waiting with
    | none => none
    | some syncFunc =>
      (CRpcInvoker.awaitSync invokerChannel invokerHost type syncFunc s.server.link).map
        fun (result, link) =>
          { s with
            waiting := none
            server := { s.server with link := link }
            returned := s.returned ++ [result] }
  | .change world => some { s with server := { s.server with world := world } }

/-- At first nothing has been called. -/
def start (world : ω) : SyncClient φ ω := ⟨none, ⟨⟨[], []⟩, world, []⟩, [], [], []⟩

/-- The executor answers a call with the object. -/
structure Callable (executor : CRpcExecutor ω) (type : SyncFunctionOut φ) (syncFunc : φ) :
    Prop where
  pack : (type.pack syncFunc).1 = true
  accepted : Accepted executor (type.getUniqueId, (type.pack syncFunc).2)
  found : (executor.findSyncFunction type.getUniqueId).isSome = true

/-- The calls of an action are answered. -/
def Action.Callable (executor : CRpcExecutor ω) (type : SyncFunctionOut φ) (a : Action φ ω) :
    Prop :=
  ∀ syncFunc, a = .call syncFunc → SyncClient.Callable executor type syncFunc

/-- The response to a call as a direct call gives it. -/
def Responds (executor : CRpcExecutor ω) (type : SyncFunctionOut φ) (syncFunc : φ)
    (before after : ω) (response : Bytes) : Prop :=
  directCall executor (type.getUniqueId, (type.pack syncFunc).2) before = (after, some response)

/-- A call that can be carried out has a response. -/
theorem Callable.responds {executor : CRpcExecutor ω} {type : SyncFunctionOut φ} {syncFunc : φ}
    (h : Callable executor type syncFunc) (before : ω) :
    ∃ after response, Responds executor type syncFunc before after response := by
  have hfunction : executor.findFunction type.getUniqueId = none := by
    have htable := h.accepted.oneTable
    rw [h.found] at htable
    exact Option.not_isSome_iff_eq_none.mp htable
  obtain ⟨func, hfunc⟩ := Option.isSome_iff_exists.mp h.found
  unfold Responds directCall
  simp only [hfunction, hfunc]
  exact ⟨_, _, rfl⟩

end SyncClient

/-- A call returns what its object makes of the response to itself. -/
def SyncCall.Answered {φ ω : Type} (executor : CRpcExecutor ω) (type : SyncFunctionOut φ)
    (call : SyncCall φ ω) : Prop :=
  ∃ response, SyncClient.Responds executor type call.syncFunc call.before call.after response ∧
    call.result = type.parseResponse response call.syncFunc

namespace SyncClient

variable {φ ω : Type} {executor : CRpcExecutor ω} {type : SyncFunctionOut φ}
  {invokerHost executorHost : ByteOrder}

/-- Where a program stands after some calls. -/
inductive Phase (executor : CRpcExecutor ω) (type : SyncFunctionOut φ)
    (history : List (SyncCall φ ω)) (s : SyncClient φ ω) : Prop
  | idle (hwaiting : s.waiting = none) (htoExecutor : s.server.link.toExecutor = [])
      (htoInvoker : s.server.link.toInvoker = [])
      (hasked : s.asked = history.map SyncCall.syncFunc)
      (hturns : s.turns = history.map fun call => (call.before, call.after))
  | requested (syncFunc : φ) (hcallable : Callable executor type syncFunc)
      (hwaiting : s.waiting = some syncFunc)
      (htoExecutor : s.server.link.toExecutor =
        [CIRpcChannel.datagram type.getUniqueId (type.pack syncFunc).2])
      (htoInvoker : s.server.link.toInvoker = [])
      (hasked : s.asked = history.map SyncCall.syncFunc ++ [syncFunc])
      (hturns : s.turns = history.map fun call => (call.before, call.after))
  | answered (syncFunc : φ) (before after : ω) (response : Bytes)
      (hcallable : Callable executor type syncFunc)
      (hresponds : Responds executor type syncFunc before after response)
      (hwaiting : s.waiting = some syncFunc) (htoExecutor : s.server.link.toExecutor = [])
      (htoInvoker : s.server.link.toInvoker =
        [CIRpcChannel.datagram type.getUniqueId response])
      (hasked : s.asked = history.map SyncCall.syncFunc ++ [syncFunc])
      (hturns : s.turns =
        (history.map fun call => (call.before, call.after)) ++ [(before, after)])

/-- The calls that have returned, each with the turn that answered it. -/
structure History (executor : CRpcExecutor ω) (type : SyncFunctionOut φ)
    (history : List (SyncCall φ ω)) (s : SyncClient φ ω) : Prop where
  answered : ∀ call ∈ history, call.Answered executor type
  returned : s.returned = history.map SyncCall.result
  phase : s.Phase executor type history

/-- At first no call has been answered. -/
theorem history_start (world : ω) : (start world).History executor type [] :=
  ⟨fun _ h => absurd h List.not_mem_nil, rfl, .idle rfl rfl rfl rfl rfl⟩

/-- A call sends its request. -/
theorem History.call {history : List (SyncCall φ ω)} {s s' : SyncClient φ ω}
    (h : s.History executor type history) {syncFunc : φ}
    (hcallable : Callable executor type syncFunc)
    (hstep : s.step executor type invokerHost executorHost (.call syncFunc) = some s') :
    s'.History executor type history := by
  cases hphase : h.phase with
  | idle hwaiting htoExecutor htoInvoker hasked hturns =>
    have hrequest := CRpcInvoker.requestSync_invokerChannel invokerHost hcallable.pack
      hcallable.accepted.id_le s.server.link
    simp only [step, hwaiting, hrequest, Option.map_some, if_true] at hstep
    obtain rfl := Option.some.inj hstep
    refine ⟨h.answered, h.returned, .requested syncFunc hcallable rfl ?_ htoInvoker ?_ hturns⟩
    · rw [htoExecutor, List.nil_append]
    · rw [hasked]
  | requested _ _ hwaiting => simp [step, hwaiting] at hstep
  | answered _ _ _ _ _ _ hwaiting => simp [step, hwaiting] at hstep

/-- The executor carries out the request. -/
theorem History.execute {history : List (SyncCall φ ω)} {s s' : SyncClient φ ω}
    (h : s.History executor type history)
    (hstep : s.step executor type invokerHost executorHost .execute = some s') :
    s'.History executor type history := by
  simp only [step, Option.map_eq_some_iff] at hstep
  obtain ⟨⟨ok, server⟩, hrun, rfl⟩ := hstep
  cases h.phase with
  | idle _ htoExecutor => cases hrun.symm.trans (runOnce_nil executor executorHost htoExecutor)
  | requested syncFunc hcallable hwaiting htoExecutor htoInvoker hasked hturns =>
    obtain ⟨after, response, hresponds⟩ := hcallable.responds s.server.world
    have hturn := runOnce_accepted executor executorHost hcallable.accepted htoExecutor
    rw [hresponds] at hturn
    obtain ⟨-, rfl⟩ := Prod.mk.inj (Option.some.inj (hrun.symm.trans hturn))
    refine ⟨h.answered, h.returned, .answered syncFunc s.server.world after response hcallable
      hresponds hwaiting rfl ?_ hasked ?_⟩
    · rw [htoInvoker]
      rfl
    · rw [hturns]
  | answered _ _ _ _ _ _ _ htoExecutor =>
    cases hrun.symm.trans (runOnce_nil executor executorHost htoExecutor)

/-- A call that returns is one more in the history. -/
theorem History.receive {history : List (SyncCall φ ω)} {s s' : SyncClient φ ω}
    (h : s.History executor type history)
    (hstep : s.step executor type invokerHost executorHost .receive = some s') :
    ∃ call, s'.History executor type (history ++ [call]) := by
  cases h.phase with
  | idle hwaiting => simp [step, hwaiting] at hstep
  | requested syncFunc _ hwaiting _ htoInvoker =>
    simp [step, hwaiting, CRpcInvoker.awaitSync_nil invokerHost type syncFunc htoInvoker] at hstep
  | answered syncFunc before after response hcallable hresponds hwaiting htoExecutor htoInvoker
      hasked hturns =>
    have hawait := CRpcInvoker.awaitSync_datagram invokerHost syncFunc
      hcallable.accepted.id_le htoInvoker
    simp only [step, hwaiting, hawait, Option.map_some] at hstep
    obtain rfl := Option.some.inj hstep
    refine ⟨⟨syncFunc, before, after, type.parseResponse response syncFunc⟩, ?_, ?_,
      .idle rfl htoExecutor rfl ?_ ?_⟩
    · intro call hcall
      rcases List.mem_append.mp hcall with hcall | hcall
      · exact h.answered call hcall
      · rw [List.mem_singleton.mp hcall]
        exact ⟨response, hresponds, rfl⟩
    · rw [h.returned, List.map_append, List.map_singleton]
    · rw [hasked, List.map_append, List.map_singleton]
    · rw [hturns, List.map_append, List.map_singleton]

/-- The world may change in between. -/
theorem History.change {history : List (SyncCall φ ω)} {s : SyncClient φ ω}
    (h : s.History executor type history) (world : ω) :
    ({ s with server := { s.server with world := world } } : SyncClient φ ω).History
      executor type history := by
  refine ⟨h.answered, h.returned, ?_⟩
  cases h.phase with
  | idle hwaiting htoExecutor htoInvoker hasked hturns =>
    exact .idle hwaiting htoExecutor htoInvoker hasked hturns
  | requested syncFunc hcallable hwaiting htoExecutor htoInvoker hasked hturns =>
    exact .requested syncFunc hcallable hwaiting htoExecutor htoInvoker hasked hturns
  | answered syncFunc before after response hcallable hresponds hwaiting htoExecutor htoInvoker
      hasked hturns =>
    exact .answered syncFunc before after response hcallable hresponds hwaiting htoExecutor
      htoInvoker hasked hturns

/-- Every action goes on with the history. -/
theorem History.step {s s' : SyncClient φ ω} {a : Action φ ω}
    (h : ∃ history, s.History executor type history) (ha : a.Callable executor type)
    (hstep : s.step executor type invokerHost executorHost a = some s') :
    ∃ history, s'.History executor type history := by
  obtain ⟨history, h⟩ := h
  cases a with
  | call syncFunc => exact ⟨history, h.call (ha syncFunc rfl) hstep⟩
  | execute => exact ⟨history, h.execute hstep⟩
  | receive =>
    obtain ⟨call, hcall⟩ := h.receive hstep
    exact ⟨history ++ [call], hcall⟩
  | change world =>
    obtain rfl := Option.some.inj hstep
    exact ⟨history, h.change world⟩

/-- However the two sides and the others are interleaved, the calls are answered in order. -/
theorem exists_history {actions : List (Action φ ω)} {world : ω} {s : SyncClient φ ω}
    (hactions : ∀ a ∈ actions, a.Callable executor type)
    (hrun : Execution.run (SyncClient.step executor type invokerHost executorHost)
      (start world) actions = some s) : ∃ history, s.History executor type history :=
  Execution.run_invariant (fun h ha hstep => History.step h ha hstep) hactions
    ⟨[], history_start world⟩ hrun

/-- The calls that have returned belong to the first turns, and at most one turn has been made
for a call that has not returned. -/
theorem History.aligned {history : List (SyncCall φ ω)} {s : SyncClient φ ω}
    (h : s.History executor type history) :
    history.map SyncCall.syncFunc <+: s.asked ∧
      history.map (fun call => (call.before, call.after)) <+: s.turns ∧
      s.turns.length ≤ history.length + 1 ∧
      (s.waiting = none → s.turns.length = history.length) := by
  cases h.phase with
  | idle hwaiting htoExecutor htoInvoker hasked hturns =>
    rw [hasked, hturns, List.length_map]
    exact ⟨List.prefix_rfl, List.prefix_rfl, Nat.le_succ _, fun _ => rfl⟩
  | requested syncFunc hcallable hwaiting htoExecutor htoInvoker hasked hturns =>
    rw [hasked, hturns, List.length_map]
    exact ⟨List.prefix_append _ _, List.prefix_rfl, Nat.le_succ _, fun _ => rfl⟩
  | answered syncFunc before after response hcallable hresponds hwaiting htoExecutor htoInvoker
      hasked hturns =>
    rw [hasked, hturns, List.length_append, List.length_map]
    refine ⟨List.prefix_append _ _, List.prefix_append _ _, le_rfl, fun hidle => ?_⟩
    rw [hwaiting] at hidle
    cases hidle

/-- A call that waits is served, and then it takes the response. -/
theorem History.goesOn {history : List (SyncCall φ ω)} {s : SyncClient φ ω}
    (h : s.History executor type history) (hwaits : s.waiting ≠ none) :
    (s.step executor type invokerHost executorHost .execute).isSome = true ∨
      (s.step executor type invokerHost executorHost .receive).isSome = true := by
  cases h.phase with
  | idle hwaiting => exact absurd hwaiting hwaits
  | requested syncFunc hcallable hwaiting htoExecutor =>
    have hturn := runOnce_accepted executor executorHost hcallable.accepted htoExecutor
    exact Or.inl (by simp only [SyncClient.step, hturn, Option.map_some, Option.isSome_some])
  | answered syncFunc before after response hcallable hresponds hwaiting htoExecutor htoInvoker =>
    have hawait := CRpcInvoker.awaitSync_datagram invokerHost syncFunc
      hcallable.accepted.id_le htoInvoker
    exact Or.inr (by
      simp only [SyncClient.step, hwaiting, hawait, Option.map_some, Option.isSome_some])

end SyncClient

end San2.Rpc
