import San2.Interfaces.CTcpInterface
import San2.Rpc.RpcConnection

/-!
# Capsules over TCP

The sender of an interface takes capsules from the output queue and calls a function of
its peer with each of them; while the queue is empty it calls a function that does
nothing. When a call fails it opens a new connection and goes on with the next capsule.
The receiver of the peer serves one connection after the other.

A connection may break at any byte. What has arrived by the time that a call of the
receiver returns is therefore a choice of the environment: any part of what was sent.
-/

namespace San2.Interfaces

open Utils Network Rpc Tcp

/-- The size of the read buffers of both sides. -/
abbrev maxSingleReadSize : ℕ := 2000

/-- A single read asks for at least one byte. -/
theorem maxSingleReadSize_pos : 0 < maxSingleReadSize := by decide

/-- `SendCapsuleFuncOut`: the identifier 1 and a packed capsule. -/
def SendCapsuleFuncOut (m_SerializedCapsule : Bytes) : CIRpcFunctionOut :=
  ⟨1, some m_SerializedCapsule⟩

/-- `pack` leaves the empty string alone that the invoker passes. -/
def AliveFuncOut : CIRpcFunctionOut := ⟨2, some []⟩

/-- `CRpcInvoker::invokeFunction` over a TCP connection. -/
def invokeFunction (host : ByteOrder) (func : CIRpcFunctionOut) : StateT Socket Option Bool :=
  match func.pack with
  | none => return false
  | some b => (tcpChannel maxSingleReadSize_pos host).sendData host func.getUniqueId b

/-- What the functions of the receiver work on. -/
structure CCapsuleReceiver where
  m_SerializedCapsule : Bytes
  /-- All capsules that have been pushed to the input queue. -/
  pushed : List CCapsule
  /-- The thread is found terminated by `push`. -/
  terminated : Bool
  /-- What the memory of a new capsule holds. -/
  memory : CCapsule
  /-- What is found where `m_interfaceAddress` refers to. The address that the function
  object was made with was a temporary one. -/
  interfaceAddress : SanAddress
  /-- An assertion has failed. -/
  aborted : Bool
  deriving DecidableEq

/-- `push` waits for room and fails only when the thread is terminated. -/
def SendCapsuleFuncIn (host : ByteOrder) : CIRpcFunctionIn CCapsuleReceiver where
  unpack data receiver := (true, { receiver with m_SerializedCapsule := data })
  call receiver :=
    let (ok, capsule) := receiver.memory.unpack host receiver.m_SerializedCapsule
    if !ok then receiver
    else if receiver.terminated then { receiver with aborted := true }
    else { receiver with
      pushed :=
        receiver.pushed ++ [capsule.setFromInterfaceAddress receiver.interfaceAddress] }

/-- `AliveFuncIn` does nothing. -/
def AliveFuncIn : CIRpcFunctionIn CCapsuleReceiver where
  unpack _ receiver := (true, receiver)
  call receiver := receiver

/-- The executor of a new connection. -/
def createExecutor (host : ByteOrder) : CRpcExecutor CCapsuleReceiver :=
  let executor := (CRpcExecutor.registerFunction ⟨[], []⟩ 1 (SendCapsuleFuncIn host)).2
  (executor.registerFunction 2 AliveFuncIn).2

/-- Where the sender is. -/
inductive TxPhase
  /-- In front of `open`. -/
  | opening
  /-- In front of `try_pop`. -/
  | connected
  | stopped
  deriving DecidableEq, Repr

/-- Where the receiver is. -/
inductive RxPhase
  /-- In front of `accept`. -/
  | listening
  /-- In front of the first message. -/
  | starting
  /-- In the loop of the executor. -/
  | running
  | stopped
  deriving DecidableEq, Repr

/-- The two ends of a connection, the lines between them and what has been sent. -/
structure Transfer where
  tx : TxPhase
  sender : CTcpInterface
  /-- What was sent on the connections and not yet read, in the order in which they were
  opened. The receiver reads the first. A connected sender writes to the last, except
  that nothing is left of its connection when the receiver has closed it. -/
  lines : List Bytes
  rx : RxPhase
  receiver : CTcpInterface
  functions : CCapsuleReceiver
  /-- The capsules for which `sendCapsule` has returned true. -/
  accepted : List CCapsule
  deriving DecidableEq

/-- What happens next, with what the environment decides about it. -/
inductive TransferEvent
  /-- The router calls `sendCapsule`. -/
  | sendCapsule (capsule : CCapsule) (terminated : Bool)
  /-- The sender calls `open` and sends the first message. -/
  | connect (success : Bool) (sends : List SendEvent)
  /-- `try_pop` times out. -/
  | timeout (sends : List SendEvent)
  /-- `try_pop` finds a capsule, or the thread terminated. -/
  | pop (terminated : Bool) (sends : List SendEvent)
  /-- The sender finds its thread terminated. -/
  | terminate
  | accept
  /-- A connection is gone before it is accepted. -/
  | drop
  /-- The receiver reads the first message. -/
  | first (arrived : ℕ) (splits : ℕ → ℕ)
  /-- The executor makes one turn. -/
  | receive (arrived : ℕ) (splits : ℕ → ℕ) (terminated : Bool) (memory : CCapsule)
    (interfaceAddress : SanAddress)
  /-- The receiver ends. -/
  | stop

/-- Bytes on the connection that was opened last. -/
def appendLast : List Bytes → Bytes → List Bytes
  | [], _ => []
  | [line], sent => [line ++ sent]
  | line :: next :: lines, sent => line :: appendLast (next :: lines) sent

/-- An operation of the sender on its socket: its result and what the kernel takes. -/
def transmit (operation : StateT Socket Option Bool) (sends : List SendEvent) :
    Option (Bool × Bytes) :=
  (operation ⟨true, sends, [], [], fun _ => 0⟩).map fun (ok, s) => (ok, s.wire)

/-- The socket of the receiver for a call before which or during which bytes arrive. -/
def arriving (line : Bytes) (arrived : ℕ) (splits : ℕ → ℕ) : Socket :=
  ⟨true, [], [], line.take arrived, splits⟩

namespace Transfer

/-- Two interfaces before the first connection. -/
def start (senderAddr receiverAddr : SanAddress) (maxOutputQueueSize : ℕ) (memory : CCapsule) :
    Transfer where
  tx := .opening
  sender := .create senderAddr maxOutputQueueSize
  lines := []
  rx := .listening
  receiver := .create receiverAddr 0
  functions := ⟨[], [], false, memory, receiverAddr, false⟩
  accepted := []

/-- The sender after a transmission: connected, or about to open a new connection. -/
def transmitted (t : Transfer) (result : Bool × Bytes) : Transfer :=
  { t with
    tx := if result.1 then .connected else .opening
    lines := appendLast t.lines result.2 }

/-- `receive` returns and the connection is closed. -/
def hangUp (t : Transfer) (lines : List Bytes) : Transfer :=
  { t with rx := .listening, lines := lines }

/-- One turn of `CTcpInterface::run`, of the receiver, or a call of the router. -/
def step (txHost rxHost : ByteOrder) (t : Transfer) : TransferEvent → Option Transfer
  | .sendCapsule capsule terminated =>
    let (ok, sender) := t.sender.sendCapsule capsule terminated
    some { t with
      sender := sender
      accepted := if ok then t.accepted ++ [capsule] else t.accepted }
  | .connect success sends =>
    if t.tx ≠ .opening then none
    else if !success then some t
    else
      (transmit ((Comm.TcpStreamRW maxSingleReadSize maxSingleReadSize_pos).writeAll
          (firstMessage t.sender.m_sanaddr)) sends).map
        { t with lines := t.lines ++ [[]] }.transmitted
  | .timeout sends =>
    if t.tx ≠ .connected then none
    else (transmit (invokeFunction txHost AliveFuncOut) sends).map t.transmitted
  | .pop terminated sends =>
    if t.tx ≠ .connected then none
    else
      match CProducerConsumer.Call.try_pop.loop terminated t.sender.m_outputQueue with
      | .returns code q (some capsule) =>
        if code ≠ 0 then none
        else
          (transmit (invokeFunction txHost (SendCapsuleFuncOut (capsule.pack txHost))) sends).map
            { t with sender := { t.sender with m_outputQueue := q } }.transmitted
      | .returns _ _ none => some { t with tx := .stopped }
      | _ => none
  | .terminate => some { t with tx := .stopped }
  | .accept =>
    if t.rx ≠ .listening ∨ t.lines = [] then none else some { t with rx := .starting }
  | .drop =>
    if t.rx ≠ .listening then none
    else match t.lines with
      | [] => none
      | _ :: lines => some { t with lines := lines }
  | .first arrived splits =>
    if t.rx ≠ .starting then none
    else match t.lines with
      | [] => none
      | line :: lines =>
        match (Comm.TcpStreamRW maxSingleReadSize maxSingleReadSize_pos).readExactNumBytesAppend []
            (4 + sanAddressSize) (arriving line arrived splits) with
        | none => none
        | some ((ok, data), s) =>
          let (accepted, receiver) := t.receiver.parseFirstMessage data
          if !ok || !accepted then some (t.hangUp lines)
          else some { t with
            rx := .running
            receiver := receiver
            lines := (s.incoming ++ line.drop arrived) :: lines }
  | .receive arrived splits terminated memory interfaceAddress =>
    if t.rx ≠ .running then none
    else match t.lines with
      | [] => none
      | line :: lines =>
        match (tcpChannel maxSingleReadSize_pos rxHost).recvData rxHost 0
            (arriving line arrived splits) with
        | none => none
        | some ((ok, functionId, b), s) =>
          if !ok then
            some ({ t with receiver := t.receiver.setPeerAddress sanDefaultAddress }.hangUp lines)
          else
            match (createExecutor rxHost).executeFunction rxHost functionId b
                ⟨⟨[], []⟩, { t.functions with
                  terminated := terminated
                  memory := memory
                  interfaceAddress := interfaceAddress }, []⟩ with
            | none => none
            | some (_, executed) => some { t with
              rx := if executed.world.aborted then .stopped else .running
              functions := executed.world
              lines := (s.incoming ++ line.drop arrived) :: lines }
  | .stop => some { t with rx := .stopped }

end Transfer

/-- A capsule is pushed when the payload is long enough and the thread goes on. -/
theorem pushed_call (host : ByteOrder) (receiver : CCapsuleReceiver)
    {payload : Bytes} :
    ((SendCapsuleFuncIn host).call
      { receiver with m_SerializedCapsule := payload }).pushed = receiver.pushed ∨
    CCapsule.headerSize ≤ payload.length ∧
      ((SendCapsuleFuncIn host).call
        { receiver with m_SerializedCapsule := payload }).pushed =
          receiver.pushed ++
            [(receiver.memory.unpack host payload).2.setFromInterfaceAddress receiver.interfaceAddress] := by
  by_cases hshort : payload.length < CCapsule.headerSize
  · left
    simp [SendCapsuleFuncIn, CCapsule.unpack_of_lt hshort]
  · have hunpack : (receiver.memory.unpack host payload).1 = true := by
      rw [← Bool.not_eq_false, CCapsule.unpack_fst_eq_false_iff]
      exact hshort
    cases hterminated : receiver.terminated with
    | true =>
      left
      simp [SendCapsuleFuncIn, hunpack]
    | false =>
      right
      refine ⟨not_lt.mp hshort, ?_⟩
      simp [SendCapsuleFuncIn, hunpack]

/-- Function 1 is `SendCapsuleFuncIn`, and nothing else has an effect. -/
theorem world_of_executeFunction {host : ByteOrder} {functionId : UInt32}
    {b : Bytes} {receiver : CCapsuleReceiver} {code : RpcError}
    {executed : ExecutorState CCapsuleReceiver}
    (h : (createExecutor host).executeFunction host functionId b
      ⟨⟨[], []⟩, receiver, []⟩ = some (code, executed)) :
    executed.world =
      if functionId = 1 then
        (SendCapsuleFuncIn host).call { receiver with m_SerializedCapsule := b }
      else receiver := by
  have hfind : (createExecutor host).findFunction functionId =
      if functionId = 2 then some AliveFuncIn
      else if functionId = 1 then some (SendCapsuleFuncIn host) else none := by
    by_cases htwo : functionId = 2
    · rw [if_pos htwo, htwo]
      rfl
    · by_cases hone : functionId = 1
      · rw [if_neg htwo, if_pos hone, hone]
        rfl
      · rw [if_neg htwo, if_neg hone]
        have htwo' : (functionId == 2) = false := by simpa using htwo
        have hone' : (functionId == 1) = false := by simpa using hone
        simp [createExecutor, CRpcExecutor.registerFunction, CRpcExecutor.findFunction,
          List.lookup_cons, htwo', hone']
  unfold CRpcExecutor.executeFunction at h
  rw [hfind] at h
  by_cases htwo : functionId = 2
  · rw [if_pos htwo] at h
    obtain ⟨-, rfl⟩ := Prod.mk.inj (Option.some.inj h)
    rw [htwo]
    rfl
  · rw [if_neg htwo] at h
    by_cases hone : functionId = 1
    · rw [if_pos hone] at h
      obtain ⟨-, rfl⟩ := Prod.mk.inj (Option.some.inj h)
      rw [if_pos hone]
      rfl
    · rw [if_neg hone] at h
      obtain ⟨-, rfl⟩ := Prod.mk.inj (Option.some.inj h)
      rw [if_neg hone]

/-- The message of a capsule, or of a test whether the connection is alive. -/
def message (host : ByteOrder) : Option CCapsule → UInt32 × Bytes
  | none => (2, [])
  | some capsule => (1, capsule.pack host)

/-- The number of bytes that a call with the capsule takes on the wire. -/
def frameSize (capsule : CCapsule) : ℕ := 4 + 2 + CCapsule.headerSize + capsule.data.length

/-- The size of the call is counted right, or what is counted does not make a capsule. -/
def Fits (capsule : CCapsule) : Prop :=
  frameSize capsule < 2 ^ 32 ∨ frameSize capsule % 2 ^ 32 < 4 + 2 + CCapsule.headerSize ∨
    2 ^ 31 ≤ frameSize capsule % 2 ^ 32

/-- Whether a capsule fits can be computed. -/
instance (capsule : CCapsule) : Decidable (Fits capsule) := by unfold Fits; infer_instance

/-- The end of a stream from which no capsule comes out. -/
def Dud (stream : Bytes) : Prop :=
  (∀ p, p <+: stream → parseFrame p = none) ∨ stream.length < 4 + 2 + CCapsule.headerSize

/-- Nothing is parsed out of nothing. -/
theorem parseFrame_nil : parseFrame [] = none := rfl

/-- A message that comes out of a short stream is too short for a capsule. -/
theorem length_of_parseFrame {stream rest : Bytes} {received : UInt32 × Bytes}
    (h : parseFrame stream = some (received, rest)) :
    received.2.length + rest.length + 6 = stream.length := by
  unfold parseFrame at h
  simp only at h
  split_ifs at h with hguard
  obtain ⟨rfl, rfl⟩ := Prod.mk.inj (Option.some.inj h)
  simp only [List.length_drop, List.length_take]
  omega

/-- The size that is counted is the length of the frame. -/
theorem length_frame_pack (host : ByteOrder) (capsule : CCapsule) :
    (frame 1 (capsule.pack host)).length = frameSize capsule := by
  rw [length_frame, CCapsule.pack_eq_layout, CCapsule.length_layout, frameSize]
  omega

/-- What cannot be parsed at all is a dud. -/
theorem dud_of_parseFrame {part : Bytes} (h : ∀ p, p <+: part → parseFrame p = none) : Dud part :=
  Or.inl h

/-- The function object that the sender invokes. -/
def funcOut (host : ByteOrder) : Option CCapsule → CIRpcFunctionOut
  | none => AliveFuncOut
  | some capsule => SendCapsuleFuncOut (capsule.pack host)

/-- A message is written as a frame. -/
theorem invokeFunction_funcOut (host : ByteOrder) (item : Option CCapsule) :
    invokeFunction host (funcOut host item) =
      (Comm.TcpStreamRW maxSingleReadSize maxSingleReadSize_pos).writeAll
        (frame (message host item).1 (message host item).2) := by
  have hone : (1 : UInt32) ≤ sanRpcMaxFid := by decide
  have htwo : (2 : UInt32) ≤ sanRpcMaxFid := by decide
  cases item with
  | none => exact sendData_tcp_any maxSingleReadSize_pos host htwo []
  | some capsule => exact sendData_tcp_any maxSingleReadSize_pos host hone _

/-- A frame is never empty. -/
theorem frame_ne_nil (funcId : UInt32) (data : Bytes) : frame funcId data ≠ [] := by
  intro hnil
  have hlength := length_frame funcId data
  rw [hnil, List.length_nil] at hlength
  omega

/-- An operation of the sender that has written a part of its data. -/
theorem transmit_writeAll {data : Bytes} (hne : data ≠ []) {sends : List SendEvent}
    {result : Bool × Bytes}
    (h : transmit ((Comm.TcpStreamRW maxSingleReadSize maxSingleReadSize_pos).writeAll data)
      sends = some result) :
    ∃ k, result.2 = data.take k ∧ k ≤ data.length % 2 ^ 32 ∧
      (2 ^ 31 ≤ data.length % 2 ^ 32 → k = 0) ∧
      (result.1 = true → data.length < 2 ^ 31 ∧ k = data.length) := by
  unfold transmit at h
  rw [Option.map_eq_some_iff] at h
  obtain ⟨⟨ok, s'⟩, hwrite, rfl⟩ := h
  obtain ⟨k, hwire, hk⟩ := Comm.writeAll_any maxSingleReadSize_pos hne hwrite
  rw [List.nil_append] at hwire
  exact ⟨k, hwire, hk⟩

/-- What a call puts on a connection: the whole message, or the end of the stream. -/
theorem carries_transmit {host : ByteOrder} {item : Option CCapsule}
    (hfits : ∀ capsule, item = some capsule → Fits capsule) {sends : List SendEvent}
    {result : Bool × Bytes}
    (h : transmit (invokeFunction host (funcOut host item)) sends = some result) :
    ∃ items : List (Option CCapsule), items.Sublist [item] ∧
      rpcFraming.Carries Dud result.1 result.2 (items.map (message host)) := by
  rw [invokeFunction_funcOut] at h
  obtain ⟨ok, sent⟩ := result
  obtain ⟨k, hsent, hle, hlarge, hall⟩ := transmit_writeAll (frame_ne_nil _ _) h
  simp only at hsent hall ⊢
  by_cases hsize : (frame (message host item).1 (message host item).2).length < 2 ^ 31
  · have hsendable : Sendable (message host item) := by
      refine ⟨?_, hsize⟩
      cases item <;> simp only [message] <;> decide
    have hpart : sent <+: frame (message host item).1 (message host item).2 := by
      rw [hsent]
      exact List.take_prefix _ _
    cases ok with
    | true =>
      have hwhole : sent = rpcFraming.encode (message host item) := by
        rw [hsent, List.take_of_length_le (hall rfl).2.ge]
        rfl
      refine ⟨[item], List.Sublist.refl _, ?_⟩
      have hcarries : rpcFraming.Carries Dud true (rpcFraming.encode (message host item) ++ [])
          [message host item] := .cons hsendable (.nil true)
      rwa [List.append_nil, ← hwhole] at hcarries
    | false =>
      rcases rpcFraming.carries_part hsendable (fun _ => dud_of_parseFrame) hpart with
        hcarries | ⟨-, hcarries⟩
      · exact ⟨[], List.nil_sublist _, hcarries⟩
      · exact ⟨[item], List.Sublist.refl _, hcarries⟩
  · -- The size does not fit into an `int`.
    have hok : ok = false := by
      by_contra hcontra
      exact hsize (hall (Bool.not_eq_false _ ▸ hcontra)).1
    refine ⟨[], List.nil_sublist _, ?_⟩
    rw [hok]
    cases item with
    | none =>
      simp only [message, length_frame] at hsize
      exact absurd (by decide) hsize
    | some capsule =>
      simp only [message, length_frame_pack] at hsize hle hlarge
      refine .dud (Or.inr ?_)
      have hlength : sent.length ≤ k := by
        rw [hsent]
        exact List.length_take_le _ _
      have hheader : CCapsule.headerSize = 87 := rfl
      rcases hfits capsule rfl with hfit | hfit | hfit
      · have hzero := hlarge (by omega)
        omega
      · omega
      · have hzero := hlarge hfit
        omega

/-- A connection holds messages, behind a first message that has been read or not. -/
inductive LineHolds (host : ByteOrder) (addr : SanAddress) :
    Bool → Bool → Bytes → List (Option CCapsule) → Prop
  | running {live : Bool} {stream : Bytes} {items : List (Option CCapsule)}
      (h : rpcFraming.Carries Dud live stream (items.map (message host))) :
      LineHolds host addr true live stream items
  | fresh {live : Bool} {stream : Bytes} {items : List (Option CCapsule)}
      (h : rpcFraming.Carries Dud live stream (items.map (message host))) :
      LineHolds host addr false live (firstMessage addr ++ stream) items
  | cut {stream : Bytes} (h : stream.length < 4 + sanAddressSize) :
      LineHolds host addr false false stream []

/-- The connections in their order; only the last one may be live. -/
inductive LinesHold (host : ByteOrder) (addr : SanAddress) (live : Bool) :
    Bool → List Bytes → List (Option CCapsule) → Prop
  | nil : LinesHold host addr live false [] []
  | cons {running : Bool} {line : Bytes} {lines : List Bytes}
      {items later : List (Option CCapsule)}
      (h : LineHolds host addr running (lines.isEmpty && live) line items)
      (hrest : LinesHold host addr live false lines later) :
      LinesHold host addr live running (line :: lines) (items ++ later)

variable {host : ByteOrder} {addr : SanAddress} {live running : Bool} {line sent : Bytes}
  {lines : List Bytes} {items new : List (Option CCapsule)}

/-- Sending goes on with the line. -/
theorem LineHolds.send (h : LineHolds host addr running true line items)
    (hsent : rpcFraming.Carries Dud live sent (new.map (message host))) :
    LineHolds host addr running live (line ++ sent) (items ++ new) := by
  cases h with
  | running h =>
    refine .running ?_
    rw [List.map_append]
    exact h.append _ hsent
  | fresh h =>
    rw [List.append_assoc]
    refine .fresh ?_
    rw [List.map_append]
    exact h.append _ hsent

/-- A line that is closed is sent no more. -/
theorem LineHolds.seal (h : LineHolds host addr running live line items) :
    LineHolds host addr running false line items := by
  cases live with
  | false => exact h
  | true =>
    have hnothing : rpcFraming.Carries Dud false []
        (([] : List (Option CCapsule)).map (message host)) := .nil false
    have hseal := h.send hnothing
    rwa [List.append_nil, List.append_nil] at hseal

/-- To append to the last line opens none. -/
theorem isEmpty_appendLast (lines : List Bytes) (sent : Bytes) :
    (appendLast lines sent).isEmpty = lines.isEmpty := by
  match lines with
  | [] => rfl
  | [_] => rfl
  | _ :: _ :: _ => rfl

/-- What is sent goes to the last line. -/
theorem appendLast_append (lines : List Bytes) (line sent : Bytes) :
    appendLast (lines ++ [line]) sent = lines ++ [line ++ sent] := by
  induction lines with
  | nil => rfl
  | cons first lines ih =>
    match lines, ih with
    | [], _ => rfl
    | second :: lines, ih =>
      rw [List.cons_append, List.cons_append] at ih
      rw [List.cons_append, List.cons_append, appendLast, ih]
      rfl

/-- What the sender writes is on its connection, unless that is closed. -/
theorem LinesHold.send (h : LinesHold host addr true running lines items)
    (hsent : rpcFraming.Carries Dud live sent (new.map (message host))) :
    ∃ items', LinesHold host addr live running (appendLast lines sent) items' ∧
      items'.Sublist (items ++ new) := by
  induction h with
  | nil => exact ⟨[], .nil, List.nil_sublist _⟩
  | @cons running line lines items later h hrest ih =>
    match lines, h, hrest, ih with
    | [], h, hrest, _ =>
      cases hrest
      refine ⟨(items ++ new) ++ [], .cons (h.send hsent) .nil, ?_⟩
      simp
    | next :: lines, h, hrest, ih =>
      obtain ⟨later', hlater, hsublist⟩ := ih
      refine ⟨items ++ later', .cons ?_ hlater, ?_⟩
      · rw [isEmpty_appendLast]
        exact h
      · rw [List.append_assoc]
        exact hsublist.append_left items

/-- When the last line is closed none is sent any more. -/
theorem LinesHold.seal (h : LinesHold host addr live running lines items) :
    LinesHold host addr false running lines items := by
  induction h with
  | nil => exact .nil
  | @cons running line lines items later h hrest ih =>
    refine .cons ?_ ih
    rw [Bool.and_false]
    exact h.seal

/-- A new connection comes last. -/
theorem LinesHold.connect (h : LinesHold host addr false running lines items)
    (hline : LineHolds host addr false live line new) :
    LinesHold host addr live running (lines ++ [line]) (items ++ new) := by
  induction h with
  | nil =>
    have hlast : LinesHold host addr live false [line] (new ++ []) := .cons hline .nil
    rwa [List.append_nil] at hlast
  | @cons running first lines items later h hrest ih =>
    rw [List.append_assoc, List.cons_append]
    refine .cons ?_ ih
    have hlater : (lines ++ [line]).isEmpty = false := by cases lines <;> rfl
    rw [hlater, Bool.false_and]
    rwa [Bool.and_false] at h

/-- A connection that is closed takes its messages with it. -/
theorem LinesHold.close (h : LinesHold host addr live running (line :: lines) items) :
    ∃ later, LinesHold host addr live false lines later ∧ later.Sublist items := by
  cases h with
  | @cons _ _ _ items later h hrest => exact ⟨later, hrest, List.sublist_append_right _ _⟩

/-- What has not arrived yet stays behind what has not been read. -/
theorem drop_arriving {line : Bytes} {arrived n : ℕ} (h : n ≤ (line.take arrived).length) :
    (line.take arrived).drop n ++ line.drop arrived = line.drop n := by
  rw [← List.drop_append_of_le_length h, List.take_append_drop]

/-- Behind the first message are the messages of the executor. -/
theorem LinesHold.first (h : LinesHold host addr live false (line :: lines) items)
    (hlength : 4 + sanAddressSize ≤ line.length) :
    LinesHold host addr live true (line.drop (4 + sanAddressSize) :: lines) items := by
  cases h with
  | @cons _ _ _ items later h hrest =>
    refine .cons ?_ hrest
    generalize (lines.isEmpty && live) = flag at h
    cases h with
    | @fresh _ stream _ h =>
      rw [List.drop_left' (length_firstMessage addr)]
      exact .running h
    | cut h => exact absurd hlength (not_le.mpr h)

/-- What the executor receives on a connection: nothing, something that is too short for a
capsule, or the next message that was sent on it, whole. -/
theorem LinesHold.receive (h : LinesHold host addr live true (line :: lines) items)
    (arrived : ℕ) :
    parseFrame (line.take arrived) = none ∨
    (∃ received rest, parseFrame (line.take arrived) = some (received, rest) ∧
      received.2.length < CCapsule.headerSize ∧
      LinesHold host addr live true ((rest ++ line.drop arrived) :: lines) items) ∨
    ∃ item items' rest, items = item :: items' ∧
      parseFrame (line.take arrived) = some (message host item, rest) ∧
      line.take arrived = frame (message host item).1 (message host item).2 ++ rest ∧
      LinesHold host addr live true ((rest ++ line.drop arrived) :: lines) items' := by
  cases h with
  | @cons _ _ _ items later h hrest =>
    generalize hflag : (lines.isEmpty && live) = flag at h
    cases h with
    | running h =>
      rw [← List.take_append_drop arrived line] at h
      rcases h.arrive _ parseFrame_nil with hnone | ⟨hlive, hnil, hdud⟩ |
        ⟨received, rest, messages', hitems, hvalid, harrived, hcarries⟩
      · exact Or.inl hnone
      · rw [List.take_append_drop] at hdud
        rcases hdud with hnever | hshort
        · exact Or.inl (hnever _ (List.take_prefix _ _))
        · cases hparse : parseFrame (line.take arrived) with
          | none => exact Or.inl rfl
          | some result =>
            obtain ⟨received, rest⟩ := result
            have hlength := length_of_parseFrame hparse
            have htotal : (line.take arrived).length + (line.drop arrived).length =
                line.length := by
              rw [← List.length_append, List.take_append_drop]
            refine Or.inr (Or.inl ⟨received, rest, rfl, by omega, ?_⟩)
            refine .cons (.running ?_) hrest
            rw [hflag, hlive, hnil]
            refine .dud (Or.inr ?_)
            rw [List.length_append]
            omega
      · match items, hitems with
        | item :: items, hitems =>
          obtain ⟨rfl, rfl⟩ := List.cons.inj hitems
          have hparse : parseFrame (line.take arrived) = some (message host item, rest) := by
            rw [harrived]
            exact rpcFraming.decode_encode hvalid rest
          rw [← hflag] at hcarries
          exact Or.inr (Or.inr ⟨item, items ++ later, rest, rfl, hparse, harrived,
            .cons (.running hcarries) hrest⟩)

end San2.Interfaces
