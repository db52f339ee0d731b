import San2.Node.CapsuleNetwork
import San2.Shell.SessionIsolation
import San2.Shell.StopWaitLink

/-!
# The shell over the nodes

The client and the server of the shell are applications of two nodes, among any other
nodes and applications. What an application sends is put in by a thread of its node, sooner
or later, and what it receives is something that was taken from its queue. Client and
session do the protocol over this network as they do it over a link.
-/

namespace San2.Shell

open Utils Network Node MachineFamily

/-- The capsule was read from the bytes and put in by a connection of an application. -/
def PutIn (bytes : Bytes) (capsule : CCapsule) : Prop :=
  ∃ host memory c, CCapsule.unpack host memory bytes = (true, c) ∧
    capsule = c.setFromInterfaceAddress sanDefaultAddress

/-- Reading fills a capsule but for the interface address. -/
theorem unpack_of_unpack {host : ByteOrder} {memory c : CCapsule} {bytes : Bytes}
    (h : memory.unpack host bytes = (true, c)) (host' : ByteOrder) (memory' : CCapsule) :
    memory'.unpack host' bytes =
      (true, c.setFromInterfaceAddress memory'.interfaceAddress) := by
  obtain ⟨hlength, -⟩ := CCapsule.data_of_unpack h
  obtain ⟨dst, src, hop, flags, appId, data, rfl⟩ := CCapsule.exists_layout hlength
  rw [CCapsule.unpack_layout] at h ⊢
  obtain ⟨-, rfl⟩ := Prod.mk.inj h
  rfl

/-- However often a capsule is read and packed on its way, it is delivered. -/
theorem PutIn.deliver {bytes : Bytes} {capsule received : CCapsule} (h : PutIn bytes capsule)
    (hsame : received.setFromInterfaceAddress sanDefaultAddress = capsule) (host : ByteOrder) :
    ∃ transit, Shell.deliver host transit bytes = some received := by
  obtain ⟨host', memory, c, hunpack, rfl⟩ := h
  refine ⟨⟨received, received.hop⟩, ?_⟩
  have hcontent : c.setFromInterfaceAddress received.interfaceAddress = received := by
    have hrestored := congrArg
      (fun c : CCapsule => c.setFromInterfaceAddress received.interfaceAddress) hsame
    exact hrestored.symm
  unfold Shell.deliver
  rw [unpack_of_unpack hunpack host received, hcontent]
  rfl

/-- Where the two applications are. -/
structure Placement (ι κ : Type) where
  clientNode : ι
  clientQueue : κ
  clientHost : ByteOrder
  clientAddress : SanAddress
  clientPort : UInt16
  serverNode : ι
  serverQueue : κ
  serverAddress : SanAddress
  serverPort : UInt16

/-- The nodes, the two applications, what they have sent and what has happened. -/
structure ShellNetwork (ι κ : Type) where
  network : CapsuleNetwork ι κ
  tx : StopWaitTx
  call : Option PendingCall
  loop : MainLoop
  /-- The capsules of the client. -/
  requests : List Bytes
  /-- The capsules of the session of the client. -/
  replies : List Bytes
  called : List (UInt64 × Bytes)
  processed : List (UInt64 × Bytes × Bytes)
  completed : List (UInt64 × Bytes × Bytes)

/-- The call that a turn of the loop makes, if its capsule is attributed to the client. -/
def MainLoop.handled (srv : ShellServer) (loop : MainLoop) (turn : Turn)
    (client : SanAddress × UInt16) : Option (Handled (Session × List (UInt64 × Bytes))) :=
  match turn.waited with
  | .success rxcapsule =>
    let (_, _, fromPort) := rxcapsule.getPortsDS srv.platform.host loop.toPort loop.fromPort
    if (rxcapsule.srcAddress, fromPort) = client then
      let s := loop.sessions client
      StopWaitRx.incommingCapsule srv.platform.host (ServerEnd.processDatagram srv turn.env)
        turn.sendCapsule turn.object s.rx (s.session, s.encrypted) rxcapsule
    else none
  | _ => none

namespace ShellNetwork

variable {ι κ : Type}

/-- What can happen: in the network, at the client, and in the main loop of the server. -/
inductive Action (ι κ : Type)
  /-- Something happens in the network. -/
  | network (action : CapsuleNetwork.Action ι κ)
  /-- A call of `sendReliableMessage` up to its first wait. -/
  | call (request : Bytes) (object : CCapsule) (sendCapsule : Bool)
  /-- The node of the client puts in one of its capsules. -/
  | requested (index : ℕ) (memory : CCapsule)
  /-- The wait of a try ends without a capsule. -/
  | timeout (sendCapsule : Bool)
  /-- The wait of a try ends with a capsule that was taken from the queue of the client. -/
  | await (index : ℕ) (memory : CCapsule) (sendCapsule : Bool)
  /-- A turn of the server without a capsule. -/
  | idle (turn : Turn)
  /-- A turn of the server with a capsule that was taken from its queue. -/
  | serve (turn : Turn) (index : ℕ) (memory : CCapsule)
  /-- The node of the server puts in one of the replies. -/
  | replied (index : ℕ) (memory : CCapsule)

variable (topology : Topology ι κ) (p : Placement ι κ) (srv : ShellServer)

/-- Client, session and network as a link. -/
def link (s : ShellNetwork ι κ) : StopWaitLink (Session × List (UInt64 × Bytes)) where
  tx := s.tx
  call := s.call
  rx := (s.loop.sessions (p.clientAddress, p.clientPort)).rx
  session := ((s.loop.sessions (p.clientAddress, p.clientPort)).session,
    (s.loop.sessions (p.clientAddress, p.clientPort)).encrypted)
  requests := s.requests
  replies := s.replies
  called := s.called
  processed := s.processed
  completed := s.completed

/-- The client after a wait. -/
def afterAwait (s : ShellNetwork ι κ) (call : PendingCall) (arrived : Option CCapsule)
    (sendCapsule : Bool) : ShellNetwork ι κ :=
  let link := (s.link p).afterAwait p.clientHost call arrived sendCapsule
  { s with
    tx := link.tx
    call := link.call
    requests := link.requests
    completed := link.completed }

variable [DecidableEq κ]

/-- The capsule that an application receives. -/
def taken (network : CapsuleNetwork ι κ) (x : ι) (applicationQueue : κ) (index : ℕ)
    (host : ByteOrder) (memory : CCapsule) : Option CCapsule :=
  (Station.ofQueue applicationQueue (network x).taken)[index]?.map fun capsule =>
    (memory.unpack host (capsule.pack (topology.host x))).2

section Step

variable [DecidableEq ι]

/-- `SendCapsuleFuncIn` for bytes that an application has sent. -/
def putIn (x : ι) (bytes : Bytes) (memory : CCapsule) (s : ShellNetwork ι κ) :
    Option (ShellNetwork ι κ) :=
  let (ok, capsule) := memory.unpack (topology.host x) bytes
  if ok then
    (CapsuleNetwork.step topology s.network
      (.station x (.inject (capsule.setFromInterfaceAddress sanDefaultAddress)))).map
        fun network => { s with network := network }
  else some s

/-- One action; absent where it is not possible in the state. -/
def step (s : ShellNetwork ι κ) : Action ι κ → Option (ShellNetwork ι κ)
  | .network action =>
    (CapsuleNetwork.step topology s.network action).map fun network => { s with network := network }
  | .call request object sendCapsule =>
    match s.call with
    | some _ => none
    | none =>
      if s.tx.m_repetitions = 0 then some s
      else if sendCapsule then
        let serializedCapsule := s.tx.serializedCapsule p.clientHost object request
        some { s with
          call := some ⟨request, serializedCapsule, s.tx.m_repetitions, []⟩
          requests := s.requests ++ [serializedCapsule]
          called := s.called ++ [(s.tx.m_expectedSeqNum, request)] }
      else some s
  | .requested index memory =>
    s.requests[index]?.bind fun bytes => s.putIn topology p.clientNode bytes memory
  | .timeout sendCapsule => s.call.map fun call => s.afterAwait p call none sendCapsule
  | .await index memory sendCapsule =>
    match s.call, taken topology s.network p.clientNode p.clientQueue index p.clientHost memory with
    | some call, some capsule => some (s.afterAwait p call (some capsule) sendCapsule)
    | _, _ => none
  | .idle turn =>
    match turn.waited with
    | .success _ => none
    | _ => (s.loop.step srv turn).map fun loop => { s with loop := loop }
  | .serve turn index memory =>
    match taken topology s.network p.serverNode p.serverQueue index srv.platform.host memory with
    | none => none
    | some rxcapsule =>
      let turn := { turn with waited := .success rxcapsule }
      let handled := s.loop.handled srv turn (p.clientAddress, p.clientPort)
      (s.loop.step srv turn).map fun loop => { s with
        loop := loop
        replies := s.replies ++ handled.toList.flatMap Handled.sent
        processed := s.processed ++ handled.toList.flatMap fun handled => handled.processed.toList }
  | .replied index memory =>
    s.replies[index]?.bind fun bytes => s.putIn topology p.serverNode bytes memory

/-- A new client, a new server, and nodes without connections. -/
def start (repetitions : ℕ) (toPort fromPort : UInt16) : ShellNetwork ι κ where
  network := CapsuleNetwork.start topology
  tx := ⟨repetitions, p.serverAddress, p.serverPort, p.clientAddress, p.clientPort, 1⟩
  call := none
  loop := .start p.serverAddress p.serverPort toPort fromPort
  requests := []
  replies := []
  called := []
  processed := []
  completed := []

end Step

/-- The client takes the capsule for a reply. -/
def ForClient (capsule : CCapsule) : Prop :=
  capsule.srcAddress = p.serverAddress ∧
    capsule.getPortsDS p.clientHost 0 0 = (true, p.clientPort, p.serverPort)

/-- The server takes the capsule for one of the client. -/
def FromClient (capsule : CCapsule) : Prop :=
  capsule.srcAddress = p.clientAddress ∧
    (capsule.getPortsDS srv.platform.host 0 0).1 = true ∧
    (capsule.getPortsDS srv.platform.host 0 0).2.2 = p.clientPort

/-- A capsule that is neither addressed to the client as if it came from the server, nor to
the server as if it came from the client. -/
def Foreign (capsule : CCapsule) : Prop :=
  (capsule.dstAddress ∈ topology.addresses p.clientNode → ¬ ForClient p capsule) ∧
    (capsule.dstAddress ∈ topology.addresses p.serverNode → ¬ FromClient p srv capsule)

/-- Nobody else pretends to be one of the two, and the client, after a call that failed, goes on
with the same request, and not with the last sequence number. -/
def Faithful (s : ShellNetwork ι κ) : Action ι κ → Prop
  | .network (.station _ (.inject capsule)) => Foreign topology p srv capsule
  | .call request object sendCapsule => (s.link p).SameRequest (.call request object sendCapsule)
  | _ => True

/-- The two differ in address or port, and no interface of their nodes has the default
address. -/
structure Placed : Prop where
  distinct : (p.clientAddress, p.clientPort) ≠ (p.serverAddress, p.serverPort)
  client : sanDefaultAddress ∉ topology.addresses p.clientNode
  server : sanDefaultAddress ∉ topology.addresses p.serverNode

/-- A state of the system and a state of the protocol. -/
structure Refines (s : ShellNetwork ι κ) (t : StopAndWait.State Bytes Bytes) : Prop where
  network : CapsuleNetwork.Inv topology s.network
  settled : ∀ x, (s.network x).Settled
  putIn : ∀ x, ∀ capsule ∈ (s.network x).injected, Foreign topology p srv capsule ∨
    ∃ bytes ∈ s.requests ++ s.replies, PutIn bytes capsule
  server : s.tx.m_serverAddress = p.serverAddress ∧ s.tx.m_serverPort = p.serverPort
  client : s.tx.m_clientAddress = p.clientAddress ∧ s.tx.m_clientPort = p.clientPort
  link : (s.link p).Refines t

variable {topology p srv} {s s' : ShellNetwork ι κ} {t : StopAndWait.State Bytes Bytes}

/-- What an application receives comes from somebody else, or from one of the two. -/
theorem Refines.taken (h : Refines topology p srv s t) {x : ι}
    (hdefault : sanDefaultAddress ∉ topology.addresses x) {applicationQueue : κ} {index : ℕ}
    {host : ByteOrder} {memory received : CCapsule}
    (htaken : taken topology s.network x applicationQueue index host memory = some received) :
    received.dstAddress ∈ topology.addresses x ∧ (Foreign topology p srv received ∨
      ∃ bytes ∈ s.requests ++ s.replies,
        PutIn bytes (received.setFromInterfaceAddress sanDefaultAddress)) := by
  obtain ⟨capsule, hindex, hreceived⟩ := Option.map_eq_some_iff.mp htaken
  rw [CCapsule.unpack_pack] at hreceived
  obtain rfl : capsule.setFromInterfaceAddress memory.interfaceAddress = received := hreceived
  obtain ⟨hdst, horigin⟩ := h.network.taken (h.settled x) (List.mem_of_getElem? hindex)
  refine ⟨hdst, ?_⟩
  have hsent : ∃ y, ∃ sent ∈ (s.network y).injected,
      capsule.setFromInterfaceAddress sanDefaultAddress =
        sent.setFromInterfaceAddress sanDefaultAddress := by
    rcases horigin (fun hdst' => hdefault (hdst' ▸ hdst)) with
      hown | ⟨y, _, _, sent, -, -, ⟨hmem, -⟩, hcapsule⟩
    · exact ⟨x, capsule, hown, rfl⟩
    · exact ⟨y, sent, hmem, hcapsule ▸ rfl⟩
  obtain ⟨y, sent, hmem, hsame⟩ := hsent
  rcases h.putIn y sent hmem with hforeign | ⟨bytes, hbytes, host', memory', c, hunpack, rfl⟩
  · left
    have hcontent : Foreign topology p srv (sent.setFromInterfaceAddress sanDefaultAddress) :=
      hforeign
    rw [← hsame] at hcontent
    exact hcontent
  · right
    exact ⟨bytes, hbytes, host', memory', c, hunpack, hsame⟩

/-- What the client makes of a capsule from its queue it makes of a reply, or of no capsule. -/
theorem Refines.arrived (h : Refines topology p srv s t) (hp : Placed topology p) {index : ℕ}
    {memory received : CCapsule} (htaken : ShellNetwork.taken topology s.network p.clientNode
      p.clientQueue index p.clientHost memory = some received) :
    (∃ bytes ∈ s.replies, ∃ transit, deliver p.clientHost transit bytes = some received) ∨
      ∀ response, s.tx.awaitResponse p.clientHost response (some received) =
        s.tx.awaitResponse p.clientHost response none := by
  obtain ⟨hdst, horigin⟩ := h.taken hp.client htaken
  by_cases hfor : ForClient p received
  · left
    rcases horigin with hforeign | ⟨bytes, hbytes, hput⟩
    · exact absurd hfor (hforeign.1 hdst)
    · obtain ⟨transit, hdeliver⟩ := hput.deliver rfl p.clientHost
      rcases List.mem_append.mp hbytes with hrequest | hreply
      · obtain ⟨seq, request, -, hcarries⟩ := h.link.requests bytes hrequest
        obtain ⟨received', hdeliver', haddress, hports, -⟩ := hcarries p.clientHost transit
        obtain rfl := Option.some.inj (hdeliver.symm.trans hdeliver')
        have hsame := hports.symm.trans hfor.2
        simp only [Prod.mk.injEq, true_and] at hsame
        refine absurd (Prod.ext ?_ ?_) hp.distinct
        · exact (h.client.1.symm.trans haddress.symm).trans hfor.1
        · exact h.client.2.symm.trans hsame.2
      · exact ⟨bytes, hreply, transit, hdeliver⟩
  · right
    intro response
    have hno : s.tx.awaitDatagram p.clientHost response (some received) = (false, response) := by
      unfold StopWaitTx.awaitDatagram
      rw [h.client.2, h.server.1, h.server.2]
      dsimp only
      split_ifs with hok hdstport hsrcport haddress
      · rfl
      · rfl
      · rfl
      · rfl
      · have hports : received.getPortsDS p.clientHost 0 0 = (true, p.clientPort, p.serverPort) :=
          Prod.ext (by simpa using hok) (Prod.ext (not_not.mp hdstport) (not_not.mp hsrcport))
        exact absurd ⟨not_not.mp haddress, hports⟩ hfor
    unfold StopWaitTx.awaitResponse
    rw [hno]
    rfl

/-- A turn with a capsule handles it in the session of the client, or leaves that alone. -/
theorem handled_of_step {loop loop' : MainLoop} {turn : Turn} {rxcapsule : CCapsule}
    (hwaited : turn.waited = .success rxcapsule) (hstep : loop.step srv turn = some loop')
    (client : SanAddress × UInt16) :
    (loop.handled srv turn client = none ∧ loop'.sessions client = loop.sessions client) ∨
      ∃ handled, loop.handled srv turn client = some handled ∧
        loop'.sessions client = ⟨handled.rx, handled.session.1, handled.session.2⟩ ∧
        StopWaitRx.incommingCapsule srv.platform.host (ServerEnd.processDatagram srv turn.env)
          turn.sendCapsule turn.object (loop.sessions client).rx
          ((loop.sessions client).session, (loop.sessions client).encrypted) rxcapsule =
            some handled ∧
        ∃ parsed, (loop.sessions client).rx.parseCapsule srv.platform.host rxcapsule =
          some parsed := by
  obtain ⟨ses, hanswer, rfl⟩ := (MainLoop.step_success hwaited).mp hstep
  rw [MainLoop.sessions_store]
  unfold MainLoop.handled
  rw [hwaited]
  dsimp only
  by_cases hkey : (rxcapsule.srcAddress,
      (rxcapsule.getPortsDS srv.platform.host loop.toPort loop.fromPort).2.2) = client
  · right
    rw [if_pos hkey, hkey, Function.update_self]
    rw [hkey] at hanswer
    have hcapsule := ServerEnd.answer_eq_some.mp hanswer
    obtain ⟨handled, hhandled, heq⟩ := Option.map_eq_some_iff.mp hcapsule
    refine ⟨handled, hhandled, ((Prod.mk.inj heq).2).symm, hhandled, ?_⟩
    rw [ServerEnd.incommingCapsule_eq] at hcapsule
    cases hparse : (loop.sessions client).rx.parseCapsule srv.platform.host rxcapsule with
    | none =>
      rw [hparse] at hcapsule
      cases hcapsule
    | some parsed => exact ⟨parsed, rfl⟩
  · left
    rw [if_neg hkey, Function.update_of_ne (Ne.symm hkey)]
    exact ⟨rfl, rfl⟩

omit [DecidableEq κ] in
/-- A parsed capsule is from the client of the session. -/
theorem fromClient_of_parse {rx : StopWaitRx} {capsule : CCapsule} {parsed : UInt64 × Bytes}
    (haddress : rx.m_clientAddress = p.clientAddress) (hport : rx.m_clientPort = p.clientPort)
    (hparse : rx.parseCapsule srv.platform.host capsule = some parsed) :
    FromClient p srv capsule := by
  unfold StopWaitRx.parseCapsule at hparse
  rw [haddress, hport] at hparse
  dsimp only at hparse
  unfold FromClient
  split_ifs at hparse with hsrc hok hsrcport
  exact ⟨not_not.mp hsrc, by simpa using hok, not_not.mp hsrcport⟩

/-- What the session of the client handles is one of its requests. -/
theorem Refines.served (h : Refines topology p srv s t) (hp : Placed topology p) {index : ℕ}
    {memory received : CCapsule} (htaken : ShellNetwork.taken topology s.network p.serverNode
      p.serverQueue index srv.platform.host memory = some received)
    (hfrom : FromClient p srv received) :
    ∃ bytes ∈ s.requests, ∃ transit,
      deliver srv.platform.host transit bytes = some received := by
  obtain ⟨hdst, hforeign | ⟨bytes, hbytes, hput⟩⟩ := h.taken hp.server htaken
  · exact absurd hfrom (hforeign.2 hdst)
  · obtain ⟨transit, hdeliver⟩ := hput.deliver rfl srv.platform.host
    rcases List.mem_append.mp hbytes with hrequest | hreply
    · exact ⟨bytes, hrequest, transit, hdeliver⟩
    · rcases h.link.replies bytes hreply with rfl | ⟨seq, response, -, hcarries⟩
      · rw [StopWaitLink.deliver_nil] at hdeliver
        cases hdeliver
      · obtain ⟨received', hdeliver', haddress, hports, -⟩ := hcarries srv.platform.host transit
        obtain rfl := Option.some.inj (hdeliver.symm.trans hdeliver')
        obtain ⟨hsrc, -, hsrcport⟩ := hfrom
        rw [hports] at hsrcport
        refine absurd (Prod.ext ?_ ?_) hp.distinct
        · exact (hsrc.symm.trans haddress).trans h.server.1
        · exact hsrcport.symm.trans h.server.2

/-! ## Steps -/

/-- The protocol does nothing, or what the system does. -/
def Follows (topology : Topology ι κ) (p : Placement ι κ) (srv : ShellServer)
    (s' : ShellNetwork ι κ) (t : StopAndWait.State Bytes Bytes) : Prop :=
  ∃ actions t', Execution.run StopAndWait.step t actions = some t' ∧
    Execution.Meets StopAndWait.step StopAndWait.Faithful t actions ∧
    Refines topology p srv s' t'

/-- The abstract protocol follows with no step of its own where the relation still holds. -/
theorem Refines.follows (h : Refines topology p srv s t) : Follows topology p srv s t :=
  ⟨[], t, rfl, trivial, h⟩

/-- A step of the link that leaves the network alone and sends more than before. -/
theorem Refines.of_link (h : Refines topology p srv s t) {s' : ShellNetwork ι κ}
    (hnetwork : s'.network = s.network) (hmore : s.requests ++ s.replies ⊆ s'.requests ++ s'.replies)
    (hserver : s'.tx.m_serverAddress = s.tx.m_serverAddress ∧
      s'.tx.m_serverPort = s.tx.m_serverPort)
    (hclient : s'.tx.m_clientAddress = s.tx.m_clientAddress ∧
      s'.tx.m_clientPort = s.tx.m_clientPort)
    (hlink : ∃ actions t', Execution.run StopAndWait.step t actions = some t' ∧
      Execution.Meets StopAndWait.step StopAndWait.Faithful t actions ∧ (s'.link p).Refines t') :
    Follows topology p srv s' t := by
  obtain ⟨actions, t', hrun, hmeets, hrefines⟩ := hlink
  refine ⟨actions, t', hrun, hmeets, ?_, ?_, ?_, ?_, ?_, hrefines⟩
  · rw [hnetwork]
    exact h.network
  · rw [hnetwork]
    exact h.settled
  · intro x capsule hmem
    rw [hnetwork] at hmem
    exact (h.putIn x capsule hmem).imp_right fun ⟨bytes, hbytes, hput⟩ =>
      ⟨bytes, hmore hbytes, hput⟩
  · rw [hserver.1, hserver.2]
    exact h.server
  · rw [hclient.1, hclient.2]
    exact h.client

omit [DecidableEq κ] in
/-- A wait is a wait of the link. -/
theorem link_afterAwait (s : ShellNetwork ι κ) (call : PendingCall) (arrived : Option CCapsule)
    (sendCapsule : Bool) :
    (s.afterAwait p call arrived sendCapsule).link p =
      (s.link p).afterAwait p.clientHost call arrived sendCapsule := by
  unfold afterAwait StopWaitLink.afterAwait
  dsimp only
  cases (s.link p).tx.awaitResponse p.clientHost call.response arrived with
  | success response => rfl
  | failure response => rfl
  | again response =>
    dsimp only
    split_ifs <;> rfl

omit [DecidableEq κ] in
/-- The client after a wait sends to the same server, and has sent no less. -/
theorem afterAwait_keeps (s : ShellNetwork ι κ) (call : PendingCall) (arrived : Option CCapsule)
    (sendCapsule : Bool) :
    let s' := s.afterAwait p call arrived sendCapsule
    s.requests ⊆ s'.requests ∧
      (s'.tx.m_serverAddress = s.tx.m_serverAddress ∧ s'.tx.m_serverPort = s.tx.m_serverPort) ∧
      (s'.tx.m_clientAddress = s.tx.m_clientAddress ∧ s'.tx.m_clientPort = s.tx.m_clientPort) := by
  unfold afterAwait StopWaitLink.afterAwait
  dsimp only
  cases (s.link p).tx.awaitResponse p.clientHost call.response arrived with
  | success response => exact ⟨List.Subset.refl _, ⟨rfl, rfl⟩, rfl, rfl⟩
  | failure response => exact ⟨List.Subset.refl _, ⟨rfl, rfl⟩, rfl, rfl⟩
  | again response =>
    dsimp only
    split_ifs
    · exact ⟨List.Subset.refl _, ⟨rfl, rfl⟩, rfl, rfl⟩
    · exact ⟨List.subset_append_left _ _, ⟨rfl, rfl⟩, rfl, rfl⟩
    · exact ⟨List.Subset.refl _, ⟨rfl, rfl⟩, rfl, rfl⟩

/-- A wait ends with a reply or without one. -/
theorem Refines.await (h : Refines topology p srv s t) {call : PendingCall}
    (hcall : s.call = some call) {arrived : Option CCapsule} (sendCapsule : Bool)
    (harrived : ∀ capsule, arrived = some capsule →
      ∃ bytes ∈ s.replies, ∃ transit, deliver p.clientHost transit bytes = some capsule) :
    Follows topology p srv (s.afterAwait p call arrived sendCapsule) t := by
  obtain ⟨hmore, hserver, hclient⟩ := afterAwait_keeps (p := p) s call arrived sendCapsule
  refine h.of_link rfl ?_ hserver hclient ?_
  · exact List.append_subset.mpr ⟨fun bytes hbytes => List.mem_append_left _ (hmore hbytes),
      List.subset_append_right _ _⟩
  · obtain ⟨actions, t', hrun, hmeets, hrefines⟩ :=
      h.link.await p.clientHost hcall sendCapsule harrived
    refine ⟨actions, t', hrun, hmeets, ?_⟩
    rw [link_afterAwait]
    exact hrefines

/-- A turn of the server is a step of the link or none. -/
theorem Refines.serve (h : Refines topology p srv s t) (hp : Placed topology p) {turn : Turn}
    {index : ℕ} {memory received : CCapsule} (htaken : ShellNetwork.taken topology s.network
      p.serverNode p.serverQueue index srv.platform.host memory = some received)
    (hwaited : turn.waited = .success received) {loop' : MainLoop}
    (hstep : s.loop.step srv turn = some loop') :
    let handled := s.loop.handled srv turn (p.clientAddress, p.clientPort)
    Follows topology p srv { s with
      loop := loop'
      replies := s.replies ++ handled.toList.flatMap Handled.sent
      processed := s.processed ++
        handled.toList.flatMap fun handled => handled.processed.toList } t := by
  intro handled
  refine h.of_link rfl ?_ ⟨rfl, rfl⟩ ⟨rfl, rfl⟩ ?_
  · exact List.append_subset.mpr ⟨List.subset_append_left _ _,
      fun bytes hbytes => List.mem_append_right _ (List.mem_append_left _ hbytes)⟩
  · rcases handled_of_step hwaited hstep (p.clientAddress, p.clientPort) with
      ⟨hnone, hsame⟩ | ⟨found, hfound, hafter, hhandled, parsed, hparse⟩
    · refine ⟨[], t, rfl, trivial, ?_⟩
      have hlink : ShellNetwork.link p { s with
          loop := loop'
          replies := s.replies ++ handled.toList.flatMap Handled.sent
          processed := s.processed ++
            handled.toList.flatMap fun handled => handled.processed.toList } = s.link p := by
        unfold ShellNetwork.link
        simp only [handled, hnone, hsame, Option.toList_none, List.flatMap_nil, List.append_nil]
      rw [hlink]
      exact h.link
    · have hfrom := fromClient_of_parse (h.link.clientAddress.trans h.client.1)
        (h.link.clientPort.trans h.client.2) hparse
      obtain ⟨bytes, hbytes, transit, hdeliver⟩ := h.served hp htaken hfrom
      obtain ⟨actions, t', hrun, hmeets, hrefines⟩ := h.link.receive srv.platform.host
        (ServerEnd.processDatagram srv turn.env) hbytes hdeliver hhandled
      refine ⟨actions, t', hrun, hmeets, ?_⟩
      have hlink : ShellNetwork.link p { s with
          loop := loop'
          replies := s.replies ++ handled.toList.flatMap Handled.sent
          processed := s.processed ++
            handled.toList.flatMap fun handled => handled.processed.toList } =
          { s.link p with
            rx := found.rx
            session := found.session
            replies := s.replies ++ found.sent
            processed := s.processed ++ found.processed.toList } := by
        unfold ShellNetwork.link
        simp only [handled, hfound, hafter, Option.toList_some, List.flatMap_singleton]
      rw [hlink]
      exact hrefines

/-- A turn without a capsule leaves the sessions alone. -/
theorem Refines.idle (h : Refines topology p srv s t) {turn : Turn}
    (hwaited : ∀ rxcapsule, turn.waited ≠ .success rxcapsule) {loop' : MainLoop}
    (hstep : s.loop.step srv turn = some loop') :
    Follows topology p srv { s with loop := loop' } t := by
  obtain ⟨-, rfl⟩ := (MainLoop.step_without_capsule hwaited).mp hstep
  exact h.follows

/-- A new call. -/
theorem Refines.call (h : Refines topology p srv s t) {request : Bytes} (object : CCapsule)
    (hsame : (s.link p).SameRequest (.call request object true)) :
    Follows topology p srv { s with
      call := some ⟨request, s.tx.serializedCapsule p.clientHost object request,
        s.tx.m_repetitions, []⟩
      requests := s.requests ++ [s.tx.serializedCapsule p.clientHost object request]
      called := s.called ++ [(s.tx.m_expectedSeqNum, request)] } t := by
  refine h.of_link rfl ?_ ⟨rfl, rfl⟩ ⟨rfl, rfl⟩ ?_
  · exact List.append_subset.mpr
      ⟨fun bytes hbytes => List.mem_append_left _ (List.mem_append_left _ hbytes),
        List.subset_append_right _ _⟩
  · obtain ⟨hfaithful, hrefines⟩ := h.link.call p.clientHost object hsame
    exact ⟨[.send request], _, Execution.run_single rfl, Execution.meets_single hfaithful,
      hrefines⟩

/-- The relation holds at the start of network, client and server. -/
theorem refines_start (topology : Topology ι κ) (p : Placement ι κ) (srv : ShellServer)
    (repetitions : ℕ) (toPort fromPort : UInt16) :
    Refines topology p srv (start topology p repetitions toPort fromPort) StopAndWait.start := by
  refine ⟨CapsuleNetwork.inv_start topology, CapsuleNetwork.settled_start topology,
    fun x capsule hmem => absurd hmem List.not_mem_nil, ⟨rfl, rfl⟩, ⟨rfl, rfl⟩, ?_⟩
  exact StopWaitLink.refines_start repetitions p.serverAddress p.serverPort p.clientAddress
    p.clientPort (Session.create, [])

variable [DecidableEq ι]

/-- The network moves on. -/
theorem Refines.moves (h : Refines topology p srv s t)
    {action : CapsuleNetwork.Action ι κ} {network' : CapsuleNetwork ι κ}
    (hstep : CapsuleNetwork.step topology s.network action = some network')
    (hinject : ∀ x capsule, action = .station x (.inject capsule) →
      Foreign topology p srv capsule ∨ ∃ bytes ∈ s.requests ++ s.replies, PutIn bytes capsule) :
    Follows topology p srv { s with network := network' } t := by
  refine ⟨[], t, rfl, trivial, h.network.step hstep, CapsuleNetwork.settled_step h.settled hstep,
    fun x capsule hmem => ?_, h.server, h.client, h.link⟩
  dsimp only at hmem
  rcases CapsuleNetwork.injected_of_step hstep x capsule hmem with hold | rfl
  · exact h.putIn x capsule hold
  · exact hinject x capsule rfl

/-- A connection puts in what one of the two has sent. -/
theorem Refines.putIn_step (h : Refines topology p srv s t) {x : ι} {bytes : Bytes}
    (hbytes : bytes ∈ s.requests ++ s.replies) {memory : CCapsule}
    (hstep : s.putIn topology x bytes memory = some s') : Follows topology p srv s' t := by
  unfold ShellNetwork.putIn at hstep
  rcases hunpack : memory.unpack (topology.host x) bytes with ⟨ok, capsule⟩
  rw [hunpack] at hstep
  cases ok with
  | false =>
    obtain rfl := Option.some.inj hstep
    exact h.follows
  | true =>
    obtain ⟨network', hnetwork, rfl⟩ := Option.map_eq_some_iff.mp hstep
    refine h.moves hnetwork fun y sent heq => ?_
    obtain ⟨rfl, hinject⟩ := CapsuleNetwork.Action.station.inj heq
    obtain rfl := Station.Action.inject.inj hinject
    exact .inr ⟨bytes, hbytes, _, memory, capsule, hunpack, rfl⟩

/-- Every faithful step of the system is a run of the protocol. -/
theorem Refines.step (h : Refines topology p srv s t) (hp : Placed topology p)
    {action : Action ι κ} (hfaithful : Faithful topology p srv s action)
    (hstep : s.step topology p srv action = some s') : Follows topology p srv s' t := by
  cases action with
  | network action =>
    obtain ⟨network', hnetwork, rfl⟩ := Option.map_eq_some_iff.mp hstep
    refine h.moves hnetwork fun x capsule heq => ?_
    subst heq
    exact .inl hfaithful
  | call request object sendCapsule =>
    simp only [ShellNetwork.step] at hstep
    split at hstep
    · cases hstep
    · split_ifs at hstep with hnone hsend
      · obtain rfl := Option.some.inj hstep
        exact h.follows
      · obtain rfl := Option.some.inj hstep
        exact h.call object hfaithful
      · obtain rfl := Option.some.inj hstep
        exact h.follows
  | requested index memory =>
    obtain ⟨bytes, hindex, hput⟩ := Option.bind_eq_some_iff.mp hstep
    exact h.putIn_step (List.mem_append_left _ (List.mem_of_getElem? hindex)) hput
  | timeout sendCapsule =>
    obtain ⟨call, hcall, rfl⟩ := Option.map_eq_some_iff.mp hstep
    exact h.await hcall sendCapsule (by rintro capsule ⟨⟩)
  | await index memory sendCapsule =>
    simp only [ShellNetwork.step] at hstep
    split at hstep
    · next call received hcall htaken =>
      obtain rfl := Option.some.inj hstep
      rcases h.arrived hp htaken with hreply | hnothing
      · refine h.await hcall sendCapsule fun capsule heq => ?_
        obtain rfl := Option.some.inj heq
        exact hreply
      · have hlink : (s.link p).tx.awaitResponse p.clientHost call.response (some received) =
            (s.link p).tx.awaitResponse p.clientHost call.response none := hnothing call.response
        have hsame : s.afterAwait p call (some received) sendCapsule =
            s.afterAwait p call none sendCapsule := by
          unfold afterAwait StopWaitLink.afterAwait
          rw [hlink]
        rw [hsame]
        exact h.await hcall sendCapsule (by rintro capsule ⟨⟩)
    · cases hstep
  | idle turn =>
    simp only [ShellNetwork.step] at hstep
    split at hstep
    · cases hstep
    · next hwaited =>
      obtain ⟨loop', hloop, rfl⟩ := Option.map_eq_some_iff.mp hstep
      exact h.idle hwaited hloop
  | serve turn index memory =>
    simp only [ShellNetwork.step] at hstep
    split at hstep
    · cases hstep
    · next received htaken =>
      obtain ⟨loop', hloop, rfl⟩ := Option.map_eq_some_iff.mp hstep
      exact h.serve hp htaken rfl hloop
  | replied index memory =>
    obtain ⟨bytes, hindex, hput⟩ := Option.bind_eq_some_iff.mp hstep
    exact h.putIn_step (List.mem_append_right _ (List.mem_of_getElem? hindex)) hput

/-- An action that neither puts in a capsule of others nor begins a call. -/
def Quiet : Action ι κ → Prop
  | .network (.station _ (.inject _)) => False
  | .call _ _ _ => False
  | _ => True

/-- A run whose actions are all quiet meets the condition at each step. -/
theorem meets_of_quiet {actions : List (Action ι κ)} (h : ∀ action ∈ actions, Quiet action)
    (s : ShellNetwork ι κ) :
    Execution.Meets (ShellNetwork.step topology p srv) (Faithful topology p srv) s actions := by
  induction actions generalizing s with
  | nil => trivial
  | cons action actions ih =>
    refine ⟨?_, fun s' _ => ih (fun other hother => h other (List.mem_cons_of_mem action hother)) s'⟩
    have hquiet := h action List.mem_cons_self
    unfold Faithful
    split
    · exact absurd hquiet id
    · exact absurd hquiet id
    · trivial

/-- Over any nodes and links, with any other applications and clients, whatever is lost and
whatever thread goes on: a call that has returned true was processed exactly once, by the session
of the client, and the response it has returned is the one to its request. -/
theorem exactly_once_over_nodes (hp : Placed topology p) {repetitions : ℕ}
    {toPort fromPort : UInt16} {actions : List (Action ι κ)}
    (hfaithful : Execution.Meets (ShellNetwork.step topology p srv) (Faithful topology p srv)
      (start topology p repetitions toPort fromPort) actions)
    (hrun : Execution.run (ShellNetwork.step topology p srv)
      (start topology p repetitions toPort fromPort) actions = some s) :
    ∀ seq request response, (seq, request, response) ∈ s.completed →
      s.processed.filter (fun entry => entry.1 = seq) = [(seq, request, response)] := by
  obtain ⟨actions', t, hrun', hmeets, hrefines⟩ := Execution.run_simulation
    (fun h hguard hstep => Refines.step h hp hguard hstep) hfaithful
    (refines_start topology p srv repetitions toPort fromPort) hrun
  exact hrefines.link.exactlyOnce fun hmem => StopAndWait.completed_once hmeets hrun' hmem

/-- The client on the second node of the pair, the server on the first. -/
def samplePlacement : Placement Bool Unit where
  clientNode := true
  clientQueue := ()
  clientHost := .bigEndian
  clientAddress := FixedBytes.replicate 32 8
  clientPort := 7
  serverNode := false
  serverQueue := ()
  serverAddress := FixedBytes.replicate 32 7
  serverPort := 80

/-- What happens until the request of the client has come to the queue of the server. -/
def sampleRequest : List (Action Bool Unit) :=
  [.network (.station true (.port (.registerPort 7 ()))),
    .network (.station false (.port (.registerPort 80 ()))),
    .network (.station true (.connected 0 (Interfaces.firstMessage (FixedBytes.replicate 32 7)))),
    .network (.station false (.connected 0 (Interfaces.firstMessage (FixedBytes.replicate 32 8)))),
    .requested 0 StopWaitLink.clearedCapsule, .network (.station true .popped),
    .network (.station true .looked), .network (.station true (.transmitted 0)),
    .network (.arrived true 0 StopWaitLink.clearedCapsule sanDefaultAddress),
    .network (.station false .popped), .network (.station false (.taken ()))]

/-- What happens until the reply has come to the client. -/
def sampleReply : List (Action Bool Unit) :=
  [.serve (MainLoop.sampleTurn []) 0 StopWaitLink.clearedCapsule,
    .replied 0 StopWaitLink.clearedCapsule, .network (.station false .popped),
    .network (.station false .looked), .network (.station false (.transmitted 0)),
    .network (.arrived false 0 StopWaitLink.clearedCapsule sanDefaultAddress),
    .network (.station true .looked), .network (.station true .popped),
    .network (.station true (.taken ())),
    .await 0 StopWaitLink.clearedCapsule true]

/-- One request over a pair of nodes: a whole run from the call to the reply, with the request
processed exactly once. -/
theorem exactly_once_over_nodes_pair :
    ∃ s, Execution.run (ShellNetwork.step CapsuleNetwork.pair samplePlacement Session.sampleServer)
        (start CapsuleNetwork.pair samplePlacement 1 0 0)
        (.call [] StopWaitLink.clearedCapsule true :: (sampleRequest ++ sampleReply)) = some s ∧
      s.completed = [(1, [], enc_construct_P_message_fail shErrorcodeUserNotFound)] ∧
      ∀ seq request response, (seq, request, response) ∈ s.completed →
        s.processed.filter (fun entry => entry.1 = seq) = [(seq, request, response)] := by
  have hsample : (Execution.run
      (ShellNetwork.step CapsuleNetwork.pair samplePlacement Session.sampleServer)
      (start CapsuleNetwork.pair samplePlacement 1 0 0)
      (.call [] StopWaitLink.clearedCapsule true :: (sampleRequest ++ sampleReply))).any
        (fun s => s.completed = [(1, [], enc_construct_P_message_fail shErrorcodeUserNotFound)]) =
          true := by
    decide +kernel
  obtain ⟨s, hrun, hcompleted⟩ := (Option.any_eq_true _ _).mp hsample
  have hplaced : Placed CapsuleNetwork.pair samplePlacement := by
    refine ⟨by decide, by decide, by decide⟩
  refine ⟨s, hrun, of_decide_eq_true hcompleted, exactly_once_over_nodes hplaced ?_ hrun⟩
  refine ⟨⟨by decide, fun request' h => absurd h List.not_mem_nil⟩, fun s₁ _ => ?_⟩
  refine meets_of_quiet (fun action haction => ?_) s₁
  simp only [sampleRequest, sampleReply, List.cons_append, List.nil_append, List.mem_cons,
    List.not_mem_nil, or_false] at haction
  repeat (obtain rfl | haction := haction; · trivial)

end ShellNetwork

end San2.Shell
