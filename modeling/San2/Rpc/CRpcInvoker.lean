import San2.Rpc.RpcConnection

/-!
# Synchronous calls over any channel

`CRpcInvoker::invokeSyncFunction` packs the arguments of a function object, sends them and
hands the response to the object. It returns false when the arguments cannot be packed, the
request cannot be sent, no response arrives or the object rejects the response.
-/

namespace San2.Rpc

open Utils

/-- A class of objects on which `invokeSyncFunction` is called. The objects are values of `φ`,
which `parseResponse` may change. -/
structure SyncFunctionOut (φ : Type) where
  getUniqueId : UInt32
  pack : φ → Bool × Bytes
  parseResponse : Bytes → φ → Bool × φ

/-- One object, for an invoker that is not interested in what the object keeps. -/
def SyncFunctionOut.function {φ : Type} (type : SyncFunctionOut φ) (syncFunc : φ) :
    CIRpcSyncFunctionOut where
  getUniqueId := type.getUniqueId
  pack := if (type.pack syncFunc).1 then some (type.pack syncFunc).2 else none
  parseResponse data := (type.parseResponse data syncFunc).1

namespace CRpcInvoker

variable {σ φ : Type}

/-- The part of `invokeSyncFunction` in front of the wait. -/
def requestSync (channel : CIRpcChannel σ) (host : ByteOrder) (type : SyncFunctionOut φ)
    (syncFunc : φ) : StateT σ Option Bool :=
  let (ok, b) := type.pack syncFunc
  if !ok then return false
  else channel.sendData host type.getUniqueId b

/-- The rest of `invokeSyncFunction`, with the object as the call leaves it. -/
def awaitSync (channel : CIRpcChannel σ) (host : ByteOrder) (type : SyncFunctionOut φ)
    (syncFunc : φ) : StateT σ Option (Bool × φ) := do
  let (ok, _, b) ← channel.recvData host type.getUniqueId
  if !ok then return (false, syncFunc)
  return type.parseResponse b syncFunc

/-- `invokeSyncFunction` with the object as the call leaves it. -/
def invokeSync (channel : CIRpcChannel σ) (host : ByteOrder) (type : SyncFunctionOut φ)
    (syncFunc : φ) : StateT σ Option (Bool × φ) := do
  if !(← requestSync channel host type syncFunc) then return (false, syncFunc)
  awaitSync channel host type syncFunc

/-- Over the connection between an invoker and an executor this is `invokeSyncFunction`. -/
theorem invokeSync_invokerChannel (host : ByteOrder) (type : SyncFunctionOut φ) (syncFunc : φ)
    (link : Link) :
    (invokeSync invokerChannel host type syncFunc link).map (fun ((ok, _), link) => (ok, link)) =
      invokeSyncFunction host (type.function syncFunc) link := by
  unfold invokeSync requestSync awaitSync
  unfold invokeSyncFunction sendRequest awaitResponse SyncFunctionOut.function
  dsimp only
  cases hpack : (type.pack syncFunc).1 with
  | false => rfl
  | true =>
    simp only [Bool.not_true, Bool.false_eq_true, if_false, if_true, bind, StateT.bind]
    cases hsend : invokerChannel.sendData host type.getUniqueId (type.pack syncFunc).2 link with
    | none => rfl
    | some sent =>
      obtain ⟨ok, sentLink⟩ := sent
      cases ok with
      | false => rfl
      | true =>
        simp only [Option.bind_some, Bool.not_true, Bool.false_eq_true, if_false, bind, StateT.bind]
        cases hrecv : invokerChannel.recvData host type.getUniqueId sentLink with
        | none => rfl
        | some received =>
          obtain ⟨⟨ok, id, data⟩, receivedLink⟩ := received
          cases ok with
          | false => rfl
          | true => rfl

/-- A request goes out when the arguments can be packed. -/
theorem requestSync_invokerChannel (host : ByteOrder) {type : SyncFunctionOut φ} {syncFunc : φ}
    (hpack : (type.pack syncFunc).1 = true) (hid : type.getUniqueId ≤ sanRpcMaxFid) (link : Link) :
    requestSync invokerChannel host type syncFunc link = some (true, { link with
      toExecutor := link.toExecutor ++
        [CIRpcChannel.datagram type.getUniqueId (type.pack syncFunc).2] }) := by
  simp only [requestSync, hpack, Bool.not_true, Bool.false_eq_true, if_false,
    invokerChannel.sendData_of_le host hid]
  rfl

/-- A waiting call parses the next response. -/
theorem awaitSync_datagram (host : ByteOrder) {type : SyncFunctionOut φ} (syncFunc : φ)
    (hid : type.getUniqueId ≤ sanRpcMaxFid) {link : Link} {response : Bytes} {rest : List Bytes}
    (h : link.toInvoker = CIRpcChannel.datagram type.getUniqueId response :: rest) :
    awaitSync invokerChannel host type syncFunc link =
      some (type.parseResponse response syncFunc, { link with toInvoker := rest }) := by
  have hdatagram : invokerChannel.recvDatagram link = some
      ((true, CIRpcChannel.datagram type.getUniqueId response),
        { link with toInvoker := rest }) := by
    simp only [invokerChannel, h]
  have hrecv := invokerChannel.recvData_datagram host type.getUniqueId hid hdatagram
  simp only [awaitSync, bind, StateT.bind, hrecv]
  rfl

/-- A call waits while no response has arrived. -/
theorem awaitSync_nil (host : ByteOrder) (type : SyncFunctionOut φ) (syncFunc : φ) {link : Link}
    (h : link.toInvoker = []) : awaitSync invokerChannel host type syncFunc link = none := by
  simp [awaitSync, CIRpcChannel.recvData, invokerChannel, h, bind, StateT.bind]

end CRpcInvoker

end San2.Rpc
