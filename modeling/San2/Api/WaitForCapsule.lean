import San2.Api.CNodeConnector
import San2.Network.CCapsule
import San2.Rpc.SyncClient
import San2.Utils.CProducerConsumer

/-!
# Waiting for a capsule

An application waits for the next capsule in the queue of its channel. The node takes it with
`try_pop`, and its answer begins with a number that says whether a packed capsule follows.
Other threads change the queue before, between and during the calls, and may terminate the
thread that serves the channel.
-/

namespace San2

open Utils Network Rpc

namespace Interfaces

/-- `SAN2_WAITFORCAPSULE_ERROR` -/
def waitforcapsuleError : Int32 := 0

/-- `SAN2_WAITFORCAPSULE_ERROR_INVALID_RESPONSE` -/
def waitforcapsuleErrorInvalidResponse : Int32 := 1

/-- `SAN2_WAITFORCAPSULE_ERROR_CAPSULE_UNPACK` -/
def waitforcapsuleErrorCapsuleUnpack : Int32 := 2

/-- `SAN2_WAITFORCAPSULE_SUCCESS` -/
def waitforcapsuleSuccess : Int32 := 3

/-- `SAN2_WAITFORCAPSULE_TIMEOUT` -/
def waitforcapsuleTimeout : Int32 := 4

/-- `SAN2_WAITFORCAPSULE_ERROR_INVOKE_FAILED` -/
def waitforcapsuleErrorInvokeFailed : Int32 := 5

/-- The members of a `WaitForCapsuleIn`. -/
structure WaitForCapsuleIn where
  m_requestedTimeout : UInt32
  m_response : Bytes

/-- The queue of a channel and the object that takes capsules from it. The next call of
`try_pop` finds the thread terminated or not, its waits end as given, and one more wait would
time out. -/
structure CapsuleWait (ρ : Type) where
  m_queue : CProducerConsumer CCapsule
  terminated : Bool
  wakes : List (CProducerConsumer.Wake CCapsule)
  /-- The queue when the last wait times out. -/
  last : CProducerConsumer CCapsule
  waitForCapsuleIn : WaitForCapsuleIn
  others : ρ

namespace WaitForCapsuleIn

variable {κ ρ : Type}

/-- `WaitForCapsuleIn::getUniqueId` -/
def getUniqueId : UInt32 := 2215

/-- `WaitForCapsuleIn::unpack` -/
def unpack (host : ByteOrder) (data : Bytes) (s : ChannelState κ (CapsuleWait ρ)) :
    Bool × ChannelState κ (CapsuleWait ρ) :=
  if data.length ≠ 4 then (false, s)
  else (true, { s with others := { s.others with
    waitForCapsuleIn := { s.others.waitForCapsuleIn with
      m_requestedTimeout := CDataPack.unpackUint32 host data 0 } } })

/-- The call of `try_pop` with the requested timeout. -/
def tryPop (s : CapsuleWait ρ) :
    CProducerConsumer CCapsule × CProducerConsumer.Progress CCapsule :=
  CProducerConsumer.Call.try_pop.run s.terminated s.m_queue
    (s.wakes ++ [⟨s.last, true, false, false⟩])

/-- The number for a result of `try_pop`. -/
def returnValue (rval : ℤ) : Int32 :=
  if rval = 0 then waitforcapsuleSuccess
  else if rval = -2 then waitforcapsuleTimeout
  else waitforcapsuleError

/-- The response for a result of `try_pop` and the capsule that it has stored, if any. -/
def response (host : ByteOrder) (rval : ℤ) (capsule : Option CCapsule) : Bytes :=
  if returnValue rval = waitforcapsuleSuccess then
    CDataPack.packInt32 host (returnValue rval) ++
      match capsule with
      | some capsule => capsule.pack host
      | none => []
  else CDataPack.packInt32 host (returnValue rval)

/-- `WaitForCapsuleIn::operator()`; `try_pop` always returns. -/
def call (host : ByteOrder) (s : ChannelState κ (CapsuleWait ρ)) :
    ChannelState κ (CapsuleWait ρ) :=
  match (tryPop s.others).2 with
  | .returns rval m_queue capsule =>
    { s with others := { s.others with
      m_queue := m_queue
      waitForCapsuleIn := { s.others.waitForCapsuleIn with
        m_response := response host rval capsule } } }
  | .waits => s
  | .outOfBounds => s

/-- `WaitForCapsuleIn::getResponse` -/
def getResponse (s : ChannelState κ (CapsuleWait ρ)) : Bytes × ChannelState κ (CapsuleWait ρ) :=
  (s.others.waitForCapsuleIn.m_response, s)

/-- The function as the executor runs it. -/
def function (host : ByteOrder) : CIRpcSyncFunctionIn (ChannelState κ (CapsuleWait ρ)) where
  unpack := unpack host
  call := call host
  getResponse := getResponse

/-- How a call of `try_pop` can end: the code, the queue found and left, and what was popped. -/
inductive Ended (found left : CProducerConsumer CCapsule) : ℤ → Option CCapsule → Prop
  | popped (capsule : CCapsule) (hfound : found.m_que = capsule :: left.m_que)
      (hsize : left.m_maxQueueSize = found.m_maxQueueSize) : Ended found left 0 (some capsule)
  | timeout (hleft : left = found) : Ended found left (-2) none
  | terminated (hleft : left = found) : Ended found left (-1) none

/-- `try_pop` returns, with a capsule or without. -/
theorem tryPop_returns (s : CapsuleWait ρ) :
    ∃ rval left capsule, (tryPop s).2 = .returns rval left capsule ∧
      Ended (tryPop s).1 left rval capsule := by
  have htries := CProducerConsumer.try_pop_run s.terminated s.m_queue
    (s.wakes ++ [⟨s.last, true, false, false⟩])
  have hreturns : (tryPop s).2 ≠ .waits :=
    CProducerConsumer.try_pop_resume_ne_waits s.m_queue _ s.wakes rfl
  change CProducerConsumer.TriesPop (tryPop s).1 (tryPop s).2 at htries
  generalize hfound : (tryPop s).1 = found at htries
  generalize hprogress : (tryPop s).2 = progress at htries hreturns
  cases htries with
  | waits => exact absurd rfl hreturns
  | timeout => exact ⟨-2, found, none, rfl, .timeout rfl⟩
  | terminated => exact ⟨-1, found, none, rfl, .terminated rfl⟩
  | pops front rest hque => exact ⟨0, _, some front, rfl, .popped front hque rfl⟩

end WaitForCapsuleIn

/-- The members of a `WaitForCapsuleOut`. -/
structure WaitForCapsuleOut where
  m_timeout : UInt32
  m_response : Bytes

namespace WaitForCapsuleOut

/-- `WaitForCapsuleOut::WaitForCapsuleOut` -/
def create : WaitForCapsuleOut := ⟨1000, []⟩

/-- `WaitForCapsuleOut::setTimeout` -/
def setTimeout (timeout : UInt32) (func : WaitForCapsuleOut) : WaitForCapsuleOut :=
  { func with m_timeout := timeout }

/-- `WaitForCapsuleOut::getUniqueId` -/
def getUniqueId : UInt32 := 2215

/-- `WaitForCapsuleOut::pack` -/
def pack (host : ByteOrder) (func : WaitForCapsuleOut) : Bool × Bytes :=
  (true, CDataPack.packUint32 host func.m_timeout)

/-- The first four bytes are the error code. -/
def parseResponse (data : Bytes) (func : WaitForCapsuleOut) : Bool × WaitForCapsuleOut :=
  if data.length < 4 then (false, func) else (true, { func with m_response := data })

/-- The function as the invoker calls it. -/
def type (host : ByteOrder) : SyncFunctionOut WaitForCapsuleOut where
  getUniqueId := getUniqueId
  pack := pack host
  parseResponse := parseResponse

/-- `getCapsule` cuts the error code off the response that the object keeps. -/
def getCapsule (host : ByteOrder) (capsule : CCapsule) (func : WaitForCapsuleOut) :
    Int32 × CCapsule × WaitForCapsuleOut :=
  if func.m_response.length < 4 then (waitforcapsuleErrorInvalidResponse, capsule, func)
  else
    let errcode := CDataPack.unpackInt32 host func.m_response 0
    if errcode ≠ waitforcapsuleSuccess then (errcode, capsule, func)
    else
      let func := { func with m_response := func.m_response.drop 4 }
      let (ok, capsule) := capsule.unpack host func.m_response
      if !ok then (waitforcapsuleErrorCapsuleUnpack, capsule, func)
      else (waitforcapsuleSuccess, capsule, func)

end WaitForCapsuleOut

namespace WaitForCapsuleIn

variable {κ ρ : Type}

/-- Success is reported exactly for a result of zero. -/
theorem returnValue_eq_success_iff (rval : ℤ) :
    returnValue rval = waitforcapsuleSuccess ↔ rval = 0 := by
  unfold returnValue
  split_ifs with hzero htimeout
  · exact iff_of_true rfl hzero
  · exact iff_of_false (by decide) hzero
  · exact iff_of_false (by decide) hzero

/-- A response begins with the four bytes of its result. -/
theorem four_le_length_response (host : ByteOrder) (rval : ℤ) (capsule : Option CCapsule) :
    4 ≤ (response host rval capsule).length := by
  have hlength := CDataPack.length_packInt32 host (returnValue rval)
  unfold response
  split_ifs
  · rw [List.length_append]
    omega
  · omega

/-- The number at the beginning of a response. -/
theorem unpackInt32_response (host reader : ByteOrder) (rval : ℤ) (capsule : Option CCapsule) :
    CDataPack.unpackInt32 reader (response host rval capsule) 0 = returnValue rval := by
  unfold response
  split_ifs
  · exact CDataPack.unpackInt32_append host reader _ _
  · exact CDataPack.unpackInt32_packInt32 host reader _

/-- What follows the number when a capsule has been popped. -/
theorem drop_response (host : ByteOrder) (capsule : CCapsule) :
    (response host 0 (some capsule)).drop 4 = capsule.pack host := by
  have hlength := CDataPack.length_packInt32 host (returnValue 0)
  rw [response, if_pos ((returnValue_eq_success_iff 0).mpr rfl), List.drop_left' hlength]

/-- A turn of the executor on a request: the timeout that was asked for and the response. -/
theorem call_unpack (host reader : ByteOrder) (func : WaitForCapsuleOut)
    (s : ChannelState κ (CapsuleWait ρ)) :
    ∃ rval left capsule, (tryPop s.others).2 = .returns rval left capsule ∧
      Ended (tryPop s.others).1 left rval capsule ∧
      unpack host (func.pack reader).2 s = (true, (unpack host (func.pack reader).2 s).2) ∧
      call host (unpack host (func.pack reader).2 s).2 =
        { s with others := { s.others with
          m_queue := left
          waitForCapsuleIn := ⟨func.m_timeout, response host rval capsule⟩ } } := by
  obtain ⟨rval, left, capsule, hreturns, hended⟩ := tryPop_returns s.others
  have hdata : (func.pack reader).2 = BigEndian.bytes 4 func.m_timeout.toNat :=
    CDataPack.packUint32_eq reader func.m_timeout
  have hlength : ¬ (func.pack reader).2.length ≠ 4 := by
    rw [hdata, BigEndian.length_bytes]
    exact not_not.mpr rfl
  have hread := CDataPack.unpackUint32_append host [] [] func.m_timeout 0 rfl
  rw [List.nil_append, List.append_nil, ← hdata] at hread
  refine ⟨rval, left, capsule, hreturns, hended, ?_, ?_⟩
  · rw [unpack, if_neg hlength]
  · rw [unpack, if_neg hlength, hread, call]
    have hsame : tryPop { s.others with waitForCapsuleIn :=
        { s.others.waitForCapsuleIn with m_requestedTimeout := func.m_timeout } } =
          tryPop s.others := rfl
    simp only [hsame, hreturns]

end WaitForCapsuleIn

namespace WaitForCapsuleOut

/-- Every response is parsed. -/
theorem parseResponse_response (host : ByteOrder) (rval : ℤ) (capsule : Option CCapsule)
    (func : WaitForCapsuleOut) :
    func.parseResponse (WaitForCapsuleIn.response host rval capsule) =
      (true, { func with m_response := WaitForCapsuleIn.response host rval capsule }) := by
  have hlength := WaitForCapsuleIn.four_le_length_response host rval capsule
  exact if_neg (by omega)

/-- The code is the one that was chosen, and a capsule that was popped comes through. -/
theorem getCapsule_popped (host reader : ByteOrder) (memory popped : CCapsule)
    (func : WaitForCapsuleOut)
    (hresponse : func.m_response = WaitForCapsuleIn.response host 0 (some popped)) :
    ∃ func', func.getCapsule reader memory = (waitforcapsuleSuccess,
      popped.setFromInterfaceAddress memory.interfaceAddress, func') := by
  have hlength := WaitForCapsuleIn.four_le_length_response host 0 (some popped)
  have hcode := WaitForCapsuleIn.unpackInt32_response host reader 0 (some popped)
  have hsuccess : WaitForCapsuleIn.returnValue 0 = waitforcapsuleSuccess := rfl
  have hcapsule := WaitForCapsuleIn.drop_response host popped
  rw [← hresponse] at hlength hcode hcapsule
  have hlong : ¬ func.m_response.length < 4 := by omega
  unfold getCapsule
  simp only [hlong, if_false, hcode, hsuccess, ne_eq, not_true_eq_false, hcapsule,
    CCapsule.unpack_pack, Bool.not_true, Bool.false_eq_true]
  exact ⟨_, rfl⟩

/-- A response without a capsule gives the reason and leaves the memory alone. -/
theorem getCapsule_failed (host reader : ByteOrder) (memory : CCapsule) {rval : ℤ}
    (hrval : rval ≠ 0) (func : WaitForCapsuleOut)
    (hresponse : func.m_response = WaitForCapsuleIn.response host rval none) :
    func.getCapsule reader memory = (WaitForCapsuleIn.returnValue rval, memory, func) := by
  have hlength := WaitForCapsuleIn.four_le_length_response host rval none
  have hcode := WaitForCapsuleIn.unpackInt32_response host reader rval none
  have hfailed : WaitForCapsuleIn.returnValue rval ≠ waitforcapsuleSuccess :=
    fun hsuccess => hrval ((WaitForCapsuleIn.returnValue_eq_success_iff rval).mp hsuccess)
  rw [← hresponse] at hlength hcode
  have hlong : ¬ func.m_response.length < 4 := by omega
  unfold getCapsule
  simp only [hlong, if_false, hcode, ne_eq, hfailed, not_false_eq_true, if_true]

end WaitForCapsuleOut

end Interfaces

namespace Api

open Interfaces

variable {κ ρ σ : Type}

/-- The end of `CNodeConnector::waitForCapsule`, with the capsule of the program as the call
leaves it. -/
def finishWait (host : ByteOrder) (capsule : CCapsule) (result : Bool × WaitForCapsuleOut) :
    Int32 × CCapsule :=
  if !result.1 then (waitforcapsuleErrorInvokeFailed, capsule)
  else
    let (code, capsule, _) := result.2.getCapsule host capsule
    (code, capsule)

/-- `CNodeConnector::waitForCapsule` over any channel. What is in front of the wait for the
response and what follows it are the steps `call` and `receive` of a `CapsuleClient`. -/
def waitForCapsule (channel : CIRpcChannel σ) (host : ByteOrder) (capsule : CCapsule)
    (timeout : UInt32) : StateT σ Option (Int32 × CCapsule) := do
  let func := WaitForCapsuleOut.create.setTimeout timeout
  return finishWait host capsule
    (← CRpcInvoker.invokeSync channel host (WaitForCapsuleOut.type host) func)

/-- A program that waits for capsules, and the channel that serves it. -/
abbrev CapsuleClient (κ ρ : Type) :=
  SyncClient WaitForCapsuleOut (ChannelState κ (CapsuleWait ρ))

/-- The channel's executor. -/
def waitExecutor (host : ByteOrder) (functions : ChannelFunctions κ (CapsuleWait ρ)) :
    CRpcExecutor (ChannelState κ (CapsuleWait ρ)) :=
  CNodeServiceChannel.rpcexec host
    { functions with waitForCapsuleIn := WaitForCapsuleIn.function host }

/-- The client of a `WaitForCapsuleOut`. -/
def CapsuleClient.step (connectorHost nodeHost : ByteOrder)
    (functions : ChannelFunctions κ (CapsuleWait ρ)) (s : CapsuleClient κ ρ)
    (action : SyncClient.Action WaitForCapsuleOut (ChannelState κ (CapsuleWait ρ))) :
    Option (CapsuleClient κ ρ) :=
  SyncClient.step (waitExecutor nodeHost functions) (WaitForCapsuleOut.type connectorHost)
    connectorHost nodeHost s action

/-- Every call of `waitForCapsule` can be carried out. -/
theorem callable_waitForCapsule (connectorHost nodeHost : ByteOrder)
    (functions : ChannelFunctions κ (CapsuleWait ρ)) (func : WaitForCapsuleOut) :
    SyncClient.Callable (waitExecutor nodeHost functions) (WaitForCapsuleOut.type connectorHost)
      func := by
  have hfunction : (waitExecutor nodeHost functions).findFunction
      WaitForCapsuleOut.getUniqueId = none := rfl
  have hsync : (waitExecutor nodeHost functions).findSyncFunction
      WaitForCapsuleOut.getUniqueId = some (WaitForCapsuleIn.function nodeHost) := rfl
  have hunpacks : ∀ world : ChannelState κ (CapsuleWait ρ),
      (WaitForCapsuleIn.unpack nodeHost (func.pack connectorHost).2 world).1 = true := by
    intro world
    obtain ⟨-, -, -, -, -, hunpack, -⟩ :=
      WaitForCapsuleIn.call_unpack nodeHost connectorHost func world
    rw [hunpack]
  refine ⟨rfl, ⟨by change WaitForCapsuleOut.getUniqueId ≤ sanRpcMaxFid; decide, ?_, ?_, ?_⟩, ?_⟩
  · change ((waitExecutor nodeHost functions).findFunction
      WaitForCapsuleOut.getUniqueId).isSome ≠ _
    rw [hfunction]
    exact Bool.false_ne_true
  · intro other hfind
    cases hfunction.symm.trans hfind
  · intro other hfind world
    obtain rfl := Option.some.inj (hsync.symm.trans hfind)
    exact hunpacks world
  · exact Option.isSome_iff_exists.mpr ⟨_, hsync⟩

/-- What is popped in a turn of the executor. -/
def popped (world : ChannelState κ (CapsuleWait ρ)) : Option CCapsule :=
  match (WaitForCapsuleIn.tryPop world.others).2 with
  | .returns _ _ capsule => capsule
  | .waits => none
  | .outOfBounds => none

/-- How a call of `waitForCapsule` ends with a turn of the executor, for what the capsule of the
program holds before the call. Either the first capsule is taken from the queue and comes through,
or the queue is left as it was found and the code tells why. -/
inductive Delivered (call : SyncCall WaitForCapsuleOut (ChannelState κ (CapsuleWait ρ)))
    (found : CProducerConsumer CCapsule) (memory : CCapsule) : Int32 × CCapsule → Prop
  | success (capsule : CCapsule)
      (hpopped : popped call.before = some capsule)
      (hqueue : found.m_que = capsule :: call.after.others.m_queue.m_que) :
      Delivered call found memory
        (waitforcapsuleSuccess, capsule.setFromInterfaceAddress memory.interfaceAddress)
  | timeout (hpopped : popped call.before = none) (hqueue : call.after.others.m_queue = found)
      (hwait : ∃ left, (WaitForCapsuleIn.tryPop call.before.others).2 = .returns (-2) left none) :
      Delivered call found memory (waitforcapsuleTimeout, memory)
  | error (hpopped : popped call.before = none) (hqueue : call.after.others.m_queue = found)
      (hterminated : ∃ left, (WaitForCapsuleIn.tryPop call.before.others).2 =
        .returns (-1) left none) :
      Delivered call found memory (waitforcapsuleError, memory)

/-- The turn serves the timeout that was asked for. -/
structure DeliversCapsule (host : ByteOrder)
    (call : SyncCall WaitForCapsuleOut (ChannelState κ (CapsuleWait ρ))) : Prop where
  timeout : call.after.others.waitForCapsuleIn.m_requestedTimeout = call.syncFunc.m_timeout
  delivered : ∀ memory, Delivered call (WaitForCapsuleIn.tryPop call.before.others).1 memory
    (finishWait host memory call.result)

/-- A call that was answered delivers what was popped. -/
theorem deliversCapsule_of_answered {connectorHost nodeHost : ByteOrder}
    {functions : ChannelFunctions κ (CapsuleWait ρ)}
    {call : SyncCall WaitForCapsuleOut (ChannelState κ (CapsuleWait ρ))}
    (h : call.Answered (waitExecutor nodeHost functions) (WaitForCapsuleOut.type connectorHost)) :
    DeliversCapsule connectorHost call := by
  obtain ⟨response, hresponds, hresult⟩ := h
  obtain ⟨rval, left, capsule, hreturns, hended, hunpack, hcall⟩ :=
    WaitForCapsuleIn.call_unpack nodeHost connectorHost call.syncFunc call.before
  have hturn : (WaitForCapsuleIn.call nodeHost
      (WaitForCapsuleIn.unpack nodeHost (call.syncFunc.pack connectorHost).2 call.before).2,
      some (WaitForCapsuleIn.call nodeHost (WaitForCapsuleIn.unpack nodeHost
        (call.syncFunc.pack connectorHost).2 call.before).2).others.waitForCapsuleIn.m_response) =
      (call.after, some response) := hresponds
  rw [hcall] at hturn
  obtain ⟨hafter, hresponse⟩ := Prod.mk.inj hturn
  obtain rfl := Option.some.inj hresponse
  have hpopped : popped call.before = capsule := by rw [popped, hreturns]
  have hqueue : call.after.others.m_queue = left := by rw [← hafter]
  change call.result = call.syncFunc.parseResponse _ at hresult
  rw [WaitForCapsuleOut.parseResponse_response] at hresult
  refine ⟨by rw [← hafter], fun memory => ?_⟩
  rw [finishWait, hresult]
  dsimp only
  let answered : WaitForCapsuleOut := { call.syncFunc with
    m_response := WaitForCapsuleIn.response nodeHost rval capsule }
  cases hended with
  | popped taken hfound =>
    obtain ⟨func, hget⟩ := WaitForCapsuleOut.getCapsule_popped nodeHost connectorHost memory
      taken answered rfl
    rw [hget]
    exact .success taken hpopped (by rw [hqueue, hfound])
  | timeout hleft =>
    have hget := WaitForCapsuleOut.getCapsule_failed nodeHost connectorHost memory
      (by decide : (-2 : ℤ) ≠ 0) answered rfl
    rw [hget]
    exact .timeout hpopped (hqueue.trans hleft) ⟨left, hreturns⟩
  | terminated hleft =>
    have hget := WaitForCapsuleOut.getCapsule_failed nodeHost connectorHost memory
      (by decide : (-1 : ℤ) ≠ 0) answered rfl
    rw [hget]
    exact .error hpopped (hqueue.trans hleft) ⟨left, hreturns⟩

/-- The capsules that come with the calls that succeed. -/
def deliveredCapsules (host : ByteOrder) (memory : CCapsule)
    (returned : List (Bool × WaitForCapsuleOut)) : List CCapsule :=
  returned.filterMap fun result =>
    let (code, capsule) := finishWait host memory result
    if code = waitforcapsuleSuccess then some capsule else none

/-- The capsule that is returned is the one that was popped, up to the receiving interface. -/
theorem Delivered.capsule {call : SyncCall WaitForCapsuleOut (ChannelState κ (CapsuleWait ρ))}
    {found : CProducerConsumer CCapsule} {memory : CCapsule} {result : Int32 × CCapsule}
    (h : Delivered call found memory result) :
    (if result.1 = waitforcapsuleSuccess then some result.2 else none) =
      (popped call.before).map fun capsule =>
        capsule.setFromInterfaceAddress memory.interfaceAddress := by
  cases h with
  | success capsule hpopped hqueue =>
    rw [hpopped]
    rfl
  | timeout hpopped hqueue hwait =>
    rw [hpopped]
    rfl
  | error hpopped hqueue hterminated =>
    rw [hpopped]
    rfl

/-- What a program may rely on that waits for capsules. -/
structure CapsulesDelivered (connectorHost nodeHost : ByteOrder)
    (functions : ChannelFunctions κ (CapsuleWait ρ)) (s : CapsuleClient κ ρ) : Prop where
  /-- The calls that have returned belong to the first turns of the executor. -/
  calls : ∃ history : List (SyncCall WaitForCapsuleOut (ChannelState κ (CapsuleWait ρ))),
    history.map SyncCall.syncFunc <+: s.asked ∧
    history.map (fun call => (call.before, call.after)) <+: s.turns ∧
    history.map SyncCall.result = s.returned ∧
    ∀ call ∈ history, DeliversCapsule connectorHost call
  /-- The capsules that have been delivered are those that were popped, in order. -/
  delivered : ∀ memory, deliveredCapsules connectorHost memory s.returned =
    ((s.turns.take s.returned.length).filterMap fun turn => popped turn.1).map fun capsule =>
      capsule.setFromInterfaceAddress memory.interfaceAddress
  /-- At most the call that waits has not returned yet. -/
  inFlight : s.turns.length ≤ s.returned.length + 1
  idle : s.waiting = none → s.turns.length = s.returned.length
  goesOn : s.waiting ≠ none →
    (CapsuleClient.step connectorHost nodeHost functions s .execute).isSome = true ∨
      (CapsuleClient.step connectorHost nodeHost functions s .receive).isSome = true

/-- Whatever is in the queue and whenever it changes, the calls of `waitForCapsule` deliver the
capsules that are popped, in order, and every other call returns the code that was chosen. -/
theorem waitForCapsule_delivers (connectorHost nodeHost : ByteOrder)
    (functions : ChannelFunctions κ (CapsuleWait ρ)) (world : ChannelState κ (CapsuleWait ρ))
    (actions : List (SyncClient.Action WaitForCapsuleOut (ChannelState κ (CapsuleWait ρ))))
    (s : CapsuleClient κ ρ)
    (hrun : Execution.run (CapsuleClient.step connectorHost nodeHost functions)
      (SyncClient.start world) actions = some s) :
    CapsulesDelivered connectorHost nodeHost functions s := by
  have hactions : ∀ a ∈ actions, a.Callable (waitExecutor nodeHost functions)
      (WaitForCapsuleOut.type connectorHost) :=
    fun a _ func _ => callable_waitForCapsule connectorHost nodeHost functions func
  obtain ⟨history, hhistory⟩ := SyncClient.exists_history hactions hrun
  obtain ⟨hasked, hturns, hinFlight, hidle⟩ := hhistory.aligned
  have hlength : s.returned.length = history.length := by
    rw [hhistory.returned, List.length_map]
  have hdelivers : ∀ call ∈ history, DeliversCapsule connectorHost call :=
    fun call hcall => deliversCapsule_of_answered (hhistory.answered call hcall)
  refine ⟨⟨history, hasked, hturns, hhistory.returned.symm, hdelivers⟩, ?_, ?_, ?_,
    hhistory.goesOn⟩
  · intro memory
    have htake : s.turns.take s.returned.length =
        history.map fun call => (call.before, call.after) := by
      have hprefix := List.prefix_iff_eq_take.mp hturns
      rw [hlength, hprefix, List.length_map]
    rw [htake, hhistory.returned, deliveredCapsules, List.filterMap_map, List.filterMap_map,
      List.map_filterMap]
    refine List.filterMap_congr fun call hcall => ?_
    exact ((hdelivers call hcall).delivered memory).capsule
  · rw [hlength]
    exact hinFlight
  · rw [hlength]
    exact hidle

/-- Function objects that do nothing. -/
def restingFunctions : ChannelFunctions Bool (CapsuleWait Unit) where
  sendCapsuleFuncIn := ⟨fun _ s => (true, s), id⟩
  waitForCapsuleIn := ⟨⟨fun _ s => (true, s), id⟩, fun s => ([], s)⟩
  registerEphemeralIn := ⟨⟨fun _ s => (true, s), id⟩, fun s => ([], s)⟩
  getAddressesIn := ⟨⟨fun _ s => (true, s), id⟩, fun s => ([], s)⟩
  getParameterIn := ⟨⟨fun _ s => (true, s), id⟩, fun s => ([], s)⟩

/-- A capsule with the given data. -/
def dataCapsule (data : Bytes) : CCapsule where
  flagDX := false
  flagDS := true
  interfaceAddress := .replicate sanAddressSize 0
  srcAddress := .replicate sanAddressSize 1
  dstAddress := .replicate sanAddressSize 2
  appId := .replicate sanHashSize 0
  hop := 5
  data := data

/-- A channel whose queue is empty until a capsule is pushed during the next wait. -/
def emptyChannel : ChannelState Bool (CapsuleWait Unit) :=
  ⟨.create, true, ⟨0, []⟩, 0,
    ⟨.create 4, false, [⟨⟨4, [dataCapsule [7]]⟩, false, false, false⟩], .create 4, ⟨0, []⟩, ()⟩⟩

/-- The capsule that arrives is delivered, and the next call times out. -/
theorem waitForCapsule_delivers_arriving :
    ∃ s, Execution.run (CapsuleClient.step .littleEndian .bigEndian restingFunctions)
        (SyncClient.start emptyChannel)
        [.call (WaitForCapsuleOut.create.setTimeout 50000), .execute, .receive,
          .change ⟨.create, true, ⟨0, []⟩, 0, ⟨.create 4, false, [], .create 4, ⟨0, []⟩, ()⟩⟩,
          .call WaitForCapsuleOut.create, .execute, .receive] = some s ∧
      s.returned.map (finishWait .littleEndian (dataCapsule [])) =
        [(3, dataCapsule [7]), (4, dataCapsule [])] ∧
      CapsulesDelivered .littleEndian .bigEndian restingFunctions s := by
  refine ⟨_, rfl, ?_, waitForCapsule_delivers .littleEndian .bigEndian restingFunctions
    emptyChannel [.call (WaitForCapsuleOut.create.setTimeout 50000), .execute, .receive,
      .change ⟨.create, true, ⟨0, []⟩, 0, ⟨.create 4, false, [], .create 4, ⟨0, []⟩, ()⟩⟩,
      .call WaitForCapsuleOut.create, .execute, .receive] _ rfl⟩
  decide +kernel

end Api

end San2
