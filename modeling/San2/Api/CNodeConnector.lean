import San2.Library.Execution
import San2.Interfaces.RegisterPort

/-!
# Registering ports over a connection

An application calls `CNodeConnector::registerPort`, and the executor of its channel in the
node answers. The port map is shared with the channels of other applications, which may
change it at any time. For every request the port map before and after the executor's turn is
recorded.
-/

namespace San2.Api

open Utils Interfaces Rpc

variable {κ ρ : Type}

/-- The function objects of a channel besides the one that registers ports. -/
structure ChannelFunctions (κ ρ : Type) where
  sendCapsuleFuncIn : CIRpcFunctionIn (ChannelState κ ρ)
  waitForCapsuleIn : CIRpcSyncFunctionIn (ChannelState κ ρ)
  registerEphemeralIn : CIRpcSyncFunctionIn (ChannelState κ ρ)
  getAddressesIn : CIRpcSyncFunctionIn (ChannelState κ ρ)
  getParameterIn : CIRpcSyncFunctionIn (ChannelState κ ρ)

namespace CNodeServiceChannel

/-- `receive` gives up when a registration returns false. -/
def registered {α : Type} (result : Bool × α) : Option α :=
  if result.1 then some result.2 else none

/-- The part of `CNodeServiceChannel::receive` that registers the functions. -/
def receive (host : ByteOrder) (functions : ChannelFunctions κ ρ) :
    Option (CRpcExecutor (ChannelState κ ρ)) := do
  let m_rpcexec : CRpcExecutor (ChannelState κ ρ) := ⟨[], []⟩
  let m_rpcexec ← registered (m_rpcexec.registerFunction 1 functions.sendCapsuleFuncIn)
  let m_rpcexec ← registered (m_rpcexec.registerSyncFunction 2215 functions.waitForCapsuleIn)
  let m_rpcexec ← registered
    (m_rpcexec.registerSyncFunction RegisterIn.getUniqueId (RegisterIn.function host))
  let m_rpcexec ← registered (m_rpcexec.registerSyncFunction 31332 functions.registerEphemeralIn)
  let m_rpcexec ← registered (m_rpcexec.registerSyncFunction 5014 functions.getAddressesIn)
  registered (m_rpcexec.registerSyncFunction 4333 functions.getParameterIn)

/-- The executor of a channel. -/
def rpcexec (host : ByteOrder) (functions : ChannelFunctions κ ρ) :
    CRpcExecutor (ChannelState κ ρ) where
  m_functions := [(1, functions.sendCapsuleFuncIn)]
  m_syncFunctions := [(4333, functions.getParameterIn), (5014, functions.getAddressesIn),
    (31332, functions.registerEphemeralIn), (4896, RegisterIn.function host),
    (2215, functions.waitForCapsuleIn)]

/-- All functions have identifiers of their own. -/
theorem receive_eq (host : ByteOrder) (functions : ChannelFunctions κ ρ) :
    receive host functions = some (rpcexec host functions) := rfl

/-- No function without a response has this identifier. -/
theorem findFunction_registerIn (host : ByteOrder) (functions : ChannelFunctions κ ρ) :
    (rpcexec host functions).findFunction RegisterIn.getUniqueId = none := rfl

/-- The synchronous function of this identifier is `RegisterIn`. -/
theorem findSyncFunction_registerIn (host : ByteOrder) (functions : ChannelFunctions κ ρ) :
    (rpcexec host functions).findSyncFunction RegisterIn.getUniqueId =
      some (RegisterIn.function host) := rfl

/-- Every call of `RegisterIn` is accepted: its arguments are always unpacked and its response can
be sent. -/
theorem accepted_registerIn (host : ByteOrder) (functions : ChannelFunctions κ ρ) (data : Bytes) :
    Accepted (rpcexec host functions) (RegisterIn.getUniqueId, data) where
  id_le := by
    change RegisterIn.getUniqueId ≤ sanRpcMaxFid
    decide
  oneTable := by
    rw [findFunction_registerIn, findSyncFunction_registerIn]
    exact Bool.false_ne_true
  unpacks hfind := by
    rw [findFunction_registerIn] at hfind
    cases hfind
  unpacksSync hfind world := by
    rw [findSyncFunction_registerIn] at hfind
    obtain rfl := Option.some.inj hfind
    rfl

/-- A direct call for a packed port registers it and responds with the answer. -/
theorem directCall_registerIn (host reader : ByteOrder) (functions : ChannelFunctions κ ρ)
    (func : RegisterOut) (world : ChannelState κ ρ) :
    directCall (rpcexec host functions) (RegisterIn.getUniqueId, (func.pack reader).2) world =
      (RegisterIn.call host
          { world with registerIn := { world.registerIn with m_port := func.m_port } },
        some (CDataPack.packInt32 host
          (RegisterIn.answer world.m_portmap func.m_port world.indeterminate))) := by
  have hunpack := RegisterIn.unpack_pack host reader func world
  have hdirect : directCall (rpcexec host functions)
      (RegisterIn.getUniqueId, (func.pack reader).2) world =
        (RegisterIn.call host (RegisterIn.unpack host (func.pack reader).2 world).2,
          some (RegisterIn.call host
            (RegisterIn.unpack host (func.pack reader).2 world).2).registerIn.m_response) := by
    simp only [directCall, findFunction_registerIn, findSyncFunction_registerIn]
    rfl
  rw [hdirect, hunpack, RegisterIn.call_eq]

end CNodeServiceChannel

/-- A turn of the executor: the port map before and after it, and what `returnValue` held. -/
structure Attempt (κ : Type) where
  before : Node.CPortmap κ
  after : Node.CPortmap κ
  indeterminate : Int32

/-- A call of `registerPort` that has returned. -/
structure PortCall (κ : Type) extends Attempt κ where
  port : UInt16
  result : Bool

/-- A connector, the channel in the node and the connection between them. `requested` records
the ports that have been asked for and `returned` what `registerPort` has returned. -/
structure CNodeConnector (κ ρ : Type) where
  /-- The object that `registerPort` waits with. -/
  waiting : Option RegisterOut
  server : ExecutorState (ChannelState κ ρ)
  requested : List UInt16
  attempts : List (Attempt κ)
  returned : List Bool

namespace CNodeConnector

/-- What can happen between an application and its node. -/
inductive Action (κ : Type)
  /-- The application calls `registerPort`, which waits for the response. -/
  | registerPort (port : UInt16)
  /-- The executor makes a turn; `returnValue` holds the given value at first. -/
  | execute (indeterminate : Int32)
  /-- `registerPort` takes the response and returns. -/
  | receive
  /-- Other channels have changed the port map. -/
  | change (portmap : Node.CPortmap κ)

/-- The state after an action; none if the action is not possible. -/
def step (connectorHost nodeHost : ByteOrder) (functions : ChannelFunctions κ ρ)
    (s : CNodeConnector κ ρ) : Action κ → Option (CNodeConnector κ ρ)
  | .registerPort port =>
    match s.waiting with
    | some _ => none
    | none =>
      let func := (RegisterOut.create.setPort port).2
      (CRpcInvoker.sendRequest connectorHost (func.function connectorHost) s.server.link).map
        fun (ok, link) =>
          { s with
            waiting := if ok then some func else none
            server := { s.server with link := link }
            requested := if ok then s.requested ++ [port] else s.requested }
  | .execute indeterminate =>
    let server :=
      { s.server with world := { s.server.world with indeterminate := indeterminate } }
    ((CNodeServiceChannel.rpcexec nodeHost functions).runOnce nodeHost server).map
      fun (_, server) =>
        { s with
          server := server
          attempts := s.attempts ++
            [⟨s.server.world.m_portmap, server.world.m_portmap, indeterminate⟩] }
  | .receive =>
    match s.waiting with
    | none => none
    | some func =>
      (CRpcInvoker.awaitResponse connectorHost (func.function connectorHost)
        s.server.link).map fun ((ok, b), link) =>
          { s with
            waiting := none
            server := { s.server with link := link }
            returned := s.returned ++
              [ok && ((func.parseResponse connectorHost b).2).wasRegistered] }
  | .change portmap =>
    some { s with
      server := { s.server with world := { s.server.world with m_portmap := portmap } } }

/-- A new connector and a new channel. -/
def start (world : ChannelState κ ρ) : CNodeConnector κ ρ :=
  ⟨none, ⟨⟨[], []⟩, world, []⟩, [], [], []⟩

/-- Ports, turns and results that belong together. -/
def zipCalls (requested : List UInt16) (attempts : List (Attempt κ)) (returned : List Bool) :
    List (PortCall κ) :=
  (requested.zip (attempts.zip returned)).map fun (port, attempt, result) =>
    { attempt with port := port, result := result }

/-- The calls of `registerPort` that have returned, with the turns of the executor. -/
def calls (s : CNodeConnector κ ρ) : List (PortCall κ) :=
  zipCalls s.requested s.attempts s.returned

end CNodeConnector

/-- The result tells whether the port was free and is now the channel's. -/
def PortCall.Correct (queue : κ) (call : PortCall κ) : Prop :=
  call.result = true ↔ call.before.getPortQueue call.port = none ∧
    call.after.getPortQueue call.port = some queue

/-- What becomes of the port and of the answer. -/
structure PortCall.Recorded (queue : κ) (call : PortCall κ) : Prop where
  after : call.after = (call.before.registerPort call.port queue).2
  result : call.result =
    decide (RegisterIn.answer call.before call.port call.indeterminate = 3)

/-- The result is wrong exactly when the port has an owner and `returnValue` holds by chance
the number that stands for success. -/
theorem PortCall.Recorded.correct_iff {queue : κ} {call : PortCall κ} (h : call.Recorded queue) :
    call.Correct queue ↔
      call.before.getPortQueue call.port = none ∨ call.indeterminate ≠ 3 := by
  unfold PortCall.Correct
  by_cases hport : call.before.getPortQueue call.port = none
  · have hafter : call.after.getPortQueue call.port = some queue := by
      rw [h.after, Node.CPortmap.registerPort_free hport, Node.CPortmap.getPortQueue_insert,
        if_pos rfl]
    have hresult : call.result = true := by
      rw [h.result, RegisterIn.answer_free hport]
      rfl
    exact iff_of_true (iff_of_true hresult ⟨hport, hafter⟩) (Or.inl hport)
  · have hresult : call.result = true ↔ call.indeterminate = 3 := by
      rw [h.result, RegisterIn.answer_owned hport, decide_eq_true_iff]
    rw [hresult]
    constructor
    · intro hcorrect
      exact Or.inr fun hthree => hport (hcorrect.mp hthree).1
    · rintro (hfree | hother)
      · exact absurd hfree hport
      · exact iff_of_false hother fun hfree => hport hfree.1

namespace CNodeConnector

/-- The datagram of a request. -/
def request (func : RegisterOut) : Bytes :=
  CIRpcChannel.datagram RegisterOut.getUniqueId (BigEndian.bytes 2 func.m_port.toNat)

/-- The datagram of a response. -/
def response (answer : Int32) : Bytes :=
  CIRpcChannel.datagram RegisterOut.getUniqueId (BigEndian.bytes 4 answer.toUInt32.toNat)

variable {connectorHost nodeHost : ByteOrder} {functions : ChannelFunctions κ ρ}

/-- `registerPort` sends its request. -/
theorem sendRequest_registerOut (func : RegisterOut) (link : Link) :
    CRpcInvoker.sendRequest connectorHost (func.function connectorHost) link =
      some (true, { link with toExecutor := link.toExecutor ++ [request func] }) := by
  have hid : RegisterOut.getUniqueId ≤ sanRpcMaxFid := by decide
  have hdata : (func.pack connectorHost).2 = BigEndian.bytes 2 func.m_port.toNat :=
    CDataPack.packUint16_eq connectorHost func.m_port
  change invokerChannel.sendData connectorHost RegisterOut.getUniqueId
    (func.pack connectorHost).2 link = _
  rw [invokerChannel.sendData_of_le connectorHost hid, hdata]
  rfl

/-- A turn of the executor on a request. -/
theorem runOnce_request (nodeHost : ByteOrder) (functions : ChannelFunctions κ ρ)
    (server : ExecutorState (ChannelState κ ρ)) {func : RegisterOut}
    (hlink : server.link.toExecutor = [request func]) :
    ∃ server', (CNodeServiceChannel.rpcexec nodeHost functions).runOnce nodeHost server =
        some (true, server') ∧
      server'.link.toExecutor = [] ∧
      server'.link.toInvoker = server.link.toInvoker ++ [response
        (RegisterIn.answer server.world.m_portmap func.m_port server.world.indeterminate)] ∧
      server'.world.m_applicationQueue = server.world.m_applicationQueue ∧
      server'.world.m_portmap = (server.world.m_portmap.registerPort func.m_port
        server.world.m_applicationQueue).2 := by
  have hdata : (func.pack nodeHost).2 = BigEndian.bytes 2 func.m_port.toNat :=
    CDataPack.packUint16_eq nodeHost func.m_port
  have haccepted := CNodeServiceChannel.accepted_registerIn nodeHost functions
    (func.pack nodeHost).2
  have hcall := CNodeServiceChannel.directCall_registerIn nodeHost nodeHost functions func
    server.world
  have hrequest : server.link.toExecutor =
      CIRpcChannel.datagram RegisterIn.getUniqueId (func.pack nodeHost).2 :: [] := by
    rw [hlink, hdata]
    rfl
  have hrun := runOnce_accepted _ nodeHost haccepted hrequest
  rw [hcall, RegisterIn.call_eq, CDataPack.packInt32_eq] at hrun
  exact ⟨_, hrun, rfl, rfl, rfl, rfl⟩

/-- The answer that has arrived is the response, and nothing is left on the way. -/
theorem awaitResponse_response {func : RegisterOut} {link : Link} {answer : Int32}
    (hlink : link.toInvoker = [response answer]) :
    CRpcInvoker.awaitResponse connectorHost (func.function connectorHost) link =
      some ((true, CDataPack.packInt32 connectorHost answer), { link with toInvoker := [] }) := by
  have hid : (func.function connectorHost).getUniqueId ≤ sanRpcMaxFid := by
    change RegisterOut.getUniqueId ≤ sanRpcMaxFid
    decide
  rw [CDataPack.packInt32_eq]
  exact awaitResponse_datagram connectorHost hid hlink

/-- Where a call of `registerPort` stands. -/
inductive Phase (queue : κ) (s : CNodeConnector κ ρ) : Prop
  | idle (hwaiting : s.waiting = none) (htoExecutor : s.server.link.toExecutor = [])
      (htoInvoker : s.server.link.toInvoker = [])
      (hrequested : s.requested.length = s.returned.length)
      (hattempts : s.attempts.length = s.returned.length)
  | requested (func : RegisterOut) (earlier : List UInt16) (hwaiting : s.waiting = some func)
      (htoExecutor : s.server.link.toExecutor = [request func])
      (htoInvoker : s.server.link.toInvoker = [])
      (hrequested : s.requested = earlier ++ [func.m_port])
      (hearlier : earlier.length = s.returned.length)
      (hattempts : s.attempts.length = s.returned.length)
  | answered (func : RegisterOut) (earlier : List UInt16) (done : List (Attempt κ))
      (attempt : Attempt κ) (hwaiting : s.waiting = some func)
      (htoExecutor : s.server.link.toExecutor = [])
      (htoInvoker : s.server.link.toInvoker =
        [response (RegisterIn.answer attempt.before func.m_port attempt.indeterminate)])
      (hrequested : s.requested = earlier ++ [func.m_port])
      (hearlier : earlier.length = s.returned.length)
      (hattempts : s.attempts = done ++ [attempt]) (hdone : done.length = s.returned.length)
      (hafter : attempt.after = (attempt.before.registerPort func.m_port queue).2)

/-- What holds in every state: a call is on its way in some phase or none is, and the calls that
have returned are recorded right. -/
structure Inv (queue : κ) (s : CNodeConnector κ ρ) : Prop where
  channel : s.server.world.m_applicationQueue = queue
  phase : s.Phase queue
  calls : ∀ call ∈ s.calls, call.Recorded queue

/-- At first nothing is on its way. -/
theorem inv_start (world : ChannelState κ ρ) : (start world).Inv world.m_applicationQueue :=
  ⟨rfl, .idle rfl rfl rfl rfl rfl, fun _ h => absurd h List.not_mem_nil⟩

/-- Each result belongs to an attempt. -/
theorem length_zip_returned {attempts : List (Attempt κ)} {returned : List Bool}
    (hattempts : attempts.length = returned.length) :
    (attempts.zip returned).length = returned.length := by
  rw [List.length_zip, hattempts, Nat.min_self]

/-- What has not returned yet is not among the calls. -/
theorem zipCalls_append {requested : List UInt16} {attempts : List (Attempt κ)}
    {returned : List Bool} (hrequested : requested.length = returned.length)
    (hattempts : attempts.length = returned.length) (ports : List UInt16)
    (turns : List (Attempt κ)) :
    zipCalls (requested ++ ports) (attempts ++ turns) returned =
      zipCalls requested attempts returned := by
  have hinner : (attempts ++ turns).zip (returned ++ []) = attempts.zip returned ++ turns.zip [] :=
    List.zip_append hattempts
  rw [List.append_nil, List.zip_nil_right, List.append_nil] at hinner
  have hzip := length_zip_returned hattempts
  have houter : (requested ++ ports).zip (attempts.zip returned ++ []) =
      requested.zip (attempts.zip returned) ++ ports.zip [] :=
    List.zip_append (hrequested.trans hzip.symm)
  rw [List.append_nil, List.zip_nil_right, List.append_nil] at houter
  rw [zipCalls, zipCalls, hinner, houter]

/-- One more call has returned. -/
theorem zipCalls_concat {requested : List UInt16} {attempts : List (Attempt κ)}
    {returned : List Bool} (hrequested : requested.length = returned.length)
    (hattempts : attempts.length = returned.length) (port : UInt16) (attempt : Attempt κ)
    (result : Bool) :
    zipCalls (requested ++ [port]) (attempts ++ [attempt]) (returned ++ [result]) =
      zipCalls requested attempts returned ++
        [{ attempt with port := port, result := result }] := by
  have hzip := length_zip_returned hattempts
  rw [zipCalls, List.zip_append hattempts, List.zip_append (hrequested.trans hzip.symm),
    List.map_append]
  rfl

/-- A call of `registerPort` keeps the invariant. -/
theorem Inv.registerPort {queue : κ} {port : UInt16} {s s' : CNodeConnector κ ρ} (h : s.Inv queue)
    (hstep : s.step connectorHost nodeHost functions (.registerPort port) = some s') :
    s'.Inv queue := by
  cases hwaiting : s.waiting with
  | some func => simp [step, hwaiting] at hstep
  | none =>
    simp only [step, hwaiting, sendRequest_registerOut, Option.map_some, if_true] at hstep
    obtain rfl := Option.some.inj hstep
    cases h.phase with
    | idle _ htoExecutor htoInvoker hrequested hattempts =>
      refine ⟨h.channel, .requested _ s.requested rfl ?_ htoInvoker rfl hrequested hattempts, ?_⟩
      · simp only [htoExecutor, List.nil_append]
      · have hcalls := zipCalls_append hrequested hattempts [port] []
        rw [List.append_nil] at hcalls
        rw [CNodeConnector.calls, hcalls]
        exact h.calls
    | requested func _ hcontra => rw [hwaiting] at hcontra; cases hcontra
    | answered func _ _ _ hcontra => rw [hwaiting] at hcontra; cases hcontra

/-- The node carries out the request. -/
theorem Inv.execute {queue : κ} {indeterminate : Int32} {s s' : CNodeConnector κ ρ}
    (h : s.Inv queue)
    (hstep : s.step connectorHost nodeHost functions (.execute indeterminate) = some s') :
    s'.Inv queue := by
  simp only [step, Option.map_eq_some_iff] at hstep
  obtain ⟨⟨ok, server⟩, hrun, rfl⟩ := hstep
  cases h.phase with
  | idle hwaiting htoExecutor htoInvoker hrequested hattempts =>
    cases hrun.symm.trans (runOnce_nil _ nodeHost htoExecutor)
  | requested func earlier hwaiting htoExecutor htoInvoker hrequested hearlier hattempts =>
    let started : ExecutorState (ChannelState κ ρ) :=
      { s.server with world := { s.server.world with indeterminate := indeterminate } }
    obtain ⟨server', hrun', htoExecutor', htoInvoker', hqueue, hportmap⟩ :=
      runOnce_request nodeHost functions started htoExecutor
    obtain ⟨-, rfl⟩ := Prod.mk.inj (Option.some.inj (hrun.symm.trans hrun'))
    refine ⟨hqueue.trans h.channel, .answered func earlier s.attempts
      ⟨s.server.world.m_portmap, server.world.m_portmap, indeterminate⟩ hwaiting htoExecutor' ?_
      hrequested hearlier rfl hattempts ?_, ?_⟩
    · rw [htoInvoker', htoInvoker]
      rfl
    · rw [hportmap, ← h.channel]
    · have hcalls (turns : List (Attempt κ)) :=
        zipCalls_append hearlier hattempts [func.m_port] turns
      have hbefore := hcalls []
      rw [List.append_nil] at hbefore
      have hrecorded := h.calls
      rw [CNodeConnector.calls, hrequested, hbefore] at hrecorded
      rw [CNodeConnector.calls, hrequested, hcalls]
      exact hrecorded
  | answered func earlier done attempt hwaiting htoExecutor =>
    cases hrun.symm.trans (runOnce_nil _ nodeHost htoExecutor)

/-- The application takes the response. -/
theorem Inv.receive {queue : κ} {s s' : CNodeConnector κ ρ} (h : s.Inv queue)
    (hstep : s.step connectorHost nodeHost functions .receive = some s') : s'.Inv queue := by
  cases h.phase with
  | idle hwaiting => simp [step, hwaiting] at hstep
  | requested func earlier hwaiting htoExecutor htoInvoker =>
    simp [step, hwaiting, awaitResponse_nil _ _ htoInvoker] at hstep
  | answered func earlier done attempt hwaiting htoExecutor htoInvoker hrequested hearlier
      hattempts hdone hafter =>
    simp only [step, hwaiting, awaitResponse_response htoInvoker, Option.map_some,
      Bool.true_and, RegisterOut.wasRegistered_packInt32] at hstep
    obtain rfl := Option.some.inj hstep
    refine ⟨h.channel, .idle rfl htoExecutor rfl ?_ ?_, ?_⟩
    · rw [hrequested, List.length_append, List.length_append, hearlier]
      rfl
    · rw [hattempts, List.length_append, List.length_append, hdone]
      rfl
    · have hrecorded := h.calls
      rw [CNodeConnector.calls, hrequested, hattempts, zipCalls_append hearlier hdone]
        at hrecorded
      rw [CNodeConnector.calls, hrequested, hattempts, zipCalls_concat hearlier hdone]
      intro call hcall
      rcases List.mem_append.mp hcall with hcall | hcall
      · exact hrecorded call hcall
      · rw [List.mem_singleton.mp hcall]
        exact ⟨hafter, rfl⟩

/-- Other channels may change the port map in between. -/
theorem Inv.change {queue : κ} {portmap : Node.CPortmap κ} {s s' : CNodeConnector κ ρ}
    (h : s.Inv queue)
    (hstep : s.step connectorHost nodeHost functions (.change portmap) = some s') :
    s'.Inv queue := by
  obtain rfl := Option.some.inj hstep
  refine ⟨h.channel, ?_, h.calls⟩
  cases h.phase with
  | idle hwaiting htoExecutor htoInvoker hrequested hattempts =>
    exact .idle hwaiting htoExecutor htoInvoker hrequested hattempts
  | requested func earlier hwaiting htoExecutor htoInvoker hrequested hearlier hattempts =>
    exact .requested func earlier hwaiting htoExecutor htoInvoker hrequested hearlier hattempts
  | answered func earlier done attempt hwaiting htoExecutor htoInvoker hrequested hearlier
      hattempts hdone hafter =>
    exact .answered func earlier done attempt hwaiting htoExecutor htoInvoker hrequested hearlier
      hattempts hdone hafter

/-- Every action keeps the invariant. -/
theorem Inv.step {queue : κ} {action : Action κ} {s s' : CNodeConnector κ ρ} (h : s.Inv queue)
    (hstep : s.step connectorHost nodeHost functions action = some s') : s'.Inv queue := by
  cases action with
  | registerPort port => exact h.registerPort hstep
  | execute indeterminate => exact h.execute hstep
  | receive => exact h.receive hstep
  | change portmap => exact h.change hstep

/-- The calls have the ports that were requested and the results that were returned. -/
theorem map_zipCalls {requested : List UInt16} {attempts : List (Attempt κ)}
    {returned : List Bool} (hrequested : requested.length = returned.length)
    (hattempts : attempts.length = returned.length) :
    (zipCalls requested attempts returned).map PortCall.port = requested ∧
      (zipCalls requested attempts returned).map PortCall.result = returned := by
  have hzip := length_zip_returned hattempts
  have hports := List.map_fst_zip (hrequested.trans hzip.symm).le
  have houter := List.map_snd_zip (hrequested.trans hzip.symm).ge
  have hinner := List.map_snd_zip hattempts.ge
  constructor
  · rw [zipCalls, List.map_map]
    exact hports
  · calc (zipCalls requested attempts returned).map PortCall.result
      _ = ((requested.zip (attempts.zip returned)).map Prod.snd).map Prod.snd := by
        rw [zipCalls, List.map_map, List.map_map]
        rfl
      _ = returned := by rw [houter, hinner]

/-- The calls of `registerPort` have the ports that have been asked for and the results that
have been returned, and a call that waits can go on. A result is wrong exactly when the port
has an owner and `returnValue` holds 3 by chance. -/
structure Answers (connectorHost nodeHost : ByteOrder) (functions : ChannelFunctions κ ρ)
    (queue : κ) (s : CNodeConnector κ ρ) : Prop where
  ports : s.calls.map PortCall.port <+: s.requested
  results : s.calls.map PortCall.result = s.returned
  goesOn : s.waiting ≠ none →
    (∀ indeterminate,
      (s.step connectorHost nodeHost functions (.execute indeterminate)).isSome = true) ∨
    (s.step connectorHost nodeHost functions .receive).isSome = true
  correct_iff : ∀ call ∈ s.calls, call.Correct queue ↔
    call.before.getPortQueue call.port = none ∨ call.indeterminate ≠ 3

/-- In every phase the calls that have returned are recorded in front. -/
theorem Phase.aligned {queue : κ} {s : CNodeConnector κ ρ} (h : s.Phase queue) :
    ∃ earlier ports done turns, s.requested = earlier ++ ports ∧ s.attempts = done ++ turns ∧
      earlier.length = s.returned.length ∧ done.length = s.returned.length := by
  cases h with
  | idle hwaiting htoExecutor htoInvoker hrequested hattempts =>
    exact ⟨s.requested, [], s.attempts, [], (List.append_nil _).symm, (List.append_nil _).symm,
      hrequested, hattempts⟩
  | requested func earlier hwaiting htoExecutor htoInvoker hrequested hearlier hattempts =>
    exact ⟨earlier, [func.m_port], s.attempts, [], hrequested, (List.append_nil _).symm,
      hearlier, hattempts⟩
  | answered func earlier done attempt hwaiting htoExecutor htoInvoker hrequested hearlier
      hattempts hdone hafter =>
    exact ⟨earlier, [func.m_port], done, [attempt], hrequested, hattempts, hearlier, hdone⟩

/-- In either phase the calls are those that were made, in order. -/
theorem Phase.map_calls {queue : κ} {s : CNodeConnector κ ρ} (h : s.Phase queue) :
    s.calls.map PortCall.port <+: s.requested ∧ s.calls.map PortCall.result = s.returned := by
  obtain ⟨earlier, ports, done, turns, hrequested, hattempts, hearlier, hdone⟩ := h.aligned
  obtain ⟨hports, hresults⟩ := map_zipCalls hearlier hdone
  rw [calls, hrequested, hattempts, zipCalls_append hearlier hdone, hports]
  exact ⟨List.prefix_append _ _, hresults⟩

/-- A request is served, and a response is taken. -/
theorem Phase.goesOn {queue : κ} {s : CNodeConnector κ ρ} (h : s.Phase queue)
    (hwaits : s.waiting ≠ none) :
    (∀ indeterminate,
      (s.step connectorHost nodeHost functions (.execute indeterminate)).isSome = true) ∨
    (s.step connectorHost nodeHost functions .receive).isSome = true := by
  cases h with
  | idle hwaiting => exact absurd hwaiting hwaits
  | requested func earlier hwaiting htoExecutor =>
    refine Or.inl fun indeterminate => ?_
    let started : ExecutorState (ChannelState κ ρ) :=
      { s.server with world := { s.server.world with indeterminate := indeterminate } }
    obtain ⟨server, hrun, -⟩ := runOnce_request nodeHost functions started htoExecutor
    rw [step, hrun]
    rfl
  | answered func earlier done attempt hwaiting htoExecutor htoInvoker =>
    refine Or.inr ?_
    simp only [step, hwaiting, awaitResponse_response htoInvoker, Option.map_some,
      Option.isSome_some]

/-- What the invariant says of the answers. -/
theorem Inv.answers {queue : κ} {s : CNodeConnector κ ρ} (h : s.Inv queue) :
    s.Answers connectorHost nodeHost functions queue where
  ports := h.phase.map_calls.1
  results := h.phase.map_calls.2
  goesOn := h.phase.goesOn
  correct_iff call hcall := (h.calls call hcall).correct_iff

/-- From any state of the port map, for every sequence of calls and whatever the other
channels do meanwhile. -/
theorem registerPort_correct_iff (connectorHost nodeHost : ByteOrder)
    (functions : ChannelFunctions κ ρ) (world : ChannelState κ ρ) (actions : List (Action κ))
    (s : CNodeConnector κ ρ)
    (hrun : Execution.run (step connectorHost nodeHost functions) (start world) actions =
      some s) :
    s.Answers connectorHost nodeHost functions world.m_applicationQueue :=
  (Execution.run_preserves (Inv world.m_applicationQueue) Inv.step (inv_start world)
    hrun).answers

/-- Function objects that do nothing. -/
def idleFunctions : ChannelFunctions Bool Unit where
  sendCapsuleFuncIn := ⟨fun _ s => (true, s), id⟩
  waitForCapsuleIn := ⟨⟨fun _ s => (true, s), id⟩, fun s => ([], s)⟩
  registerEphemeralIn := ⟨⟨fun _ s => (true, s), id⟩, fun s => ([], s)⟩
  getAddressesIn := ⟨⟨fun _ s => (true, s), id⟩, fun s => ([], s)⟩
  getParameterIn := ⟨⟨fun _ s => (true, s), id⟩, fun s => ([], s)⟩

/-- The channel with the queue `true` in a node with the given port map. -/
def channelTrue (m_portmap : Node.CPortmap Bool) : ChannelState Bool Unit :=
  ⟨m_portmap, true, ⟨0, []⟩, 0, ()⟩

/-- A free port is registered. -/
theorem registerPort_correct_iff_free :
    ∃ s, Execution.run (step .littleEndian .bigEndian idleFunctions)
        (start (channelTrue .create)) [.registerPort 2345, .execute 7, .receive] = some s ∧
      s.returned = [true] ∧ s.Answers .littleEndian .bigEndian idleFunctions true := by
  refine ⟨_, rfl, rfl, ?_⟩
  exact registerPort_correct_iff .littleEndian .bigEndian idleFunctions (channelTrue .create)
    [.registerPort 2345, .execute 7, .receive] _ rfl

/-- A port of another channel is reported as registered. -/
theorem registerPort_owned_reported :
    ∃ s, Execution.run (step .littleEndian .littleEndian idleFunctions)
        (start (channelTrue (Node.CPortmap.create.registerPort 2345 false).2))
        [.registerPort 2345, .execute 3, .receive] = some s ∧
      s.returned = [true] ∧ ¬∀ call ∈ s.calls, call.Correct true := by
  refine ⟨_, rfl, rfl, fun hcorrect => ?_⟩
  have hcall := hcorrect _ (List.mem_singleton.mpr rfl)
  have hfree := (hcall.mp rfl).1
  cases hfree

end CNodeConnector

end San2.Api
