import San2.Node.Station

/-!
# Nodes and their links

The interfaces of the nodes are linked in pairs. An interface announces its own address to
the interface at the other end of its link, and what it sends arrives there in order, if it
is not lost. Nothing is known about which thread of which node goes on next.
-/

namespace San2.Node

open Utils Network Interfaces

/-- The nodes, as their configuration files describe them, and the links between them. -/
structure Topology (ι κ : Type) where
  host : ι → ByteOrder
  /-- The address and the size of the output queue of each interface. -/
  interfaces : ι → List (SanAddress × ℕ)
  inputQueueMaxSize : ι → ℕ
  applicationQueueSize : ι → κ → ℕ
  /-- The interface at the other end. -/
  peer : ι → ℕ → Option (ι × ℕ)

namespace Topology

variable {ι κ : Type} (topology : Topology ι κ)

/-- The addresses of a node. -/
def addresses (x : ι) : List SanAddress := (topology.interfaces x).map Prod.fst

/-- The address of the interface at the other end. -/
def peerAddress (x : ι) (index : ℕ) : Option SanAddress :=
  (topology.peer x index).bind fun (y, other) => (topology.addresses y)[other]?

/-- A first message that is one comes from the other end. -/
def Admits (x : ι) : Station.Action κ → Prop
  | .connected index data =>
    announced data = none ∨ announced data = topology.peerAddress x index
  | _ => True

/-- Whether an action is admitted can be computed. -/
instance (x : ι) (action : Station.Action κ) : Decidable (topology.Admits x action) := by
  unfold Admits
  split
  · infer_instance
  · infer_instance

end Topology

/-- A network is a station for each node. -/
abbrev CapsuleNetwork (ι κ : Type) := ι → Station κ

namespace CapsuleNetwork

variable {ι κ : Type}

/-- Each interface has its address, and knows no other peer than the one at the other end of its
link. -/
structure Honest (topology : Topology ι κ) (x : ι) (node : CNode κ) : Prop where
  addresses : node.addresses = topology.addresses x
  peer : ∀ index line, node.m_interfaces[index]? = some line →
    line.iface.m_peeraddr = sanDefaultAddress ∨
      topology.peerAddress x index = some line.iface.m_peeraddr

/-- The address of a peer is what a first message says, or the default address. -/
theorem peeraddr_apply (line : Line) (event : LineEvent) :
    (line.apply event).iface.m_peeraddr = line.iface.m_peeraddr ∨
      (line.apply event).iface.m_peeraddr = sanDefaultAddress ∨
      ∃ data, event = .connected data ∧
        announced data = some (line.apply event).iface.m_peeraddr := by
  cases event with
  | connected data =>
    cases hpeer : line.peer with
    | some addr =>
      simp only [Line.apply, hpeer, true_or]
    | none =>
      simp only [Line.apply, hpeer]
      rcases line.iface.parseFirstMessage_eq data with hreject | ⟨addr, rfl⟩
      · rw [hreject]
        exact .inl rfl
      · rw [CTcpInterface.parseFirstMessage_firstMessage]
        exact .inr (.inr ⟨_, rfl, announced_firstMessage addr⟩)
  | disconnected =>
    cases hpeer : line.peer with
    | some addr =>
      simp only [Line.apply, hpeer]
      exact .inr (.inl rfl)
    | none =>
      simp only [Line.apply, hpeer, true_or]
  | transmitted => exact .inl rfl

section

variable [DecidableEq κ] {topology : Topology ι κ} {x : ι}

/-- An event keeps the peers honest if the first message is the one of the other end. -/
theorem Honest.apply {node : CNode κ} (h : Honest topology x node)
    {event : CNode.Event κ}
    (hadmits : ∀ index data, event = .line index (.connected data) →
      announced data = none ∨ announced data = topology.peerAddress x index) :
    Honest topology x (node.apply event) := by
  refine ⟨(node.addresses_apply event).trans h.addresses, fun index line hline => ?_⟩
  rw [CNode.getElem?_apply] at hline
  obtain ⟨before, hbefore, rfl⟩ := Option.map_eq_some_iff.mp hline
  have hpeer := h.peer index before hbefore
  unfold CNode.Event.onLine
  split
  · next other lineEvent =>
    split_ifs with heq
    · subst heq
      rcases peeraddr_apply before lineEvent with hsame | hdefault | ⟨data, rfl, hannounced⟩
      · rwa [hsame]
      · exact .inl hdefault
      · rcases hadmits other data rfl with hnone | hannounces
        · rw [hannounced] at hnone
          cases hnone
        · exact .inr (hannounces.symm.trans hannounced)
    · exact hpeer
  · exact hpeer
  · exact hpeer

/-- An action keeps the peers honest if it is admitted. -/
theorem Honest.happens {station station' : Station κ} {action : Station.Action κ}
    (h : Honest topology x station.node) (hadmits : topology.Admits x action)
    (hhappens : Station.Happens (topology.host x) station action station') :
    Honest topology x station'.node := by
  cases hhappens with
  | inject capsule q hque => exact h
  | port call => exact h.apply (by simp)
  | taken applicationQueue capsule rest hque => exact h.apply (by simp)
  | connected index data =>
    refine h.apply fun other data' heq => ?_
    obtain ⟨rfl, hevent⟩ := CNode.Event.line.inj heq
    obtain rfl := LineEvent.connected.inj hevent
    exact hadmits
  | disconnected index => exact h.apply (by simp)
  | transmitted index capsule rest hque => exact h.apply (by simp)
  | lost index place => exact h
  | own capsule q handled hque hown hhandle hidle hrunning =>
    obtain ⟨hinterfaces, -⟩ := CNode.handle_own hown hhandle
    refine ⟨?_, ?_⟩
    · rw [CNode.addresses, hinterfaces]
      exact h.addresses
    · rw [hinterfaces]
      exact h.peer
  | other capsule q hque hother hidle hrunning => exact h
  | looked capsule index line hrouting hline =>
    refine ⟨(CNode.addresses_set _ hline capsule false).trans h.addresses,
      fun other found hfound => ?_⟩
    rw [List.getElem?_set] at hfound
    split_ifs at hfound with heq hlt
    · subst heq
      obtain rfl := Option.some.inj hfound
      rw [(line.forward_addresses capsule false).2.1]
      exact h.peer index line hline
    · exact h.peer other found hfound
  | finished capsule index hrouting hnone => exact h

end

/-- A capsule has been put in by its own node, to another one. -/
def Departing (topology : Topology ι κ) (injected : ι → List CCapsule) (x : ι)
    (capsule : CCapsule) : Prop :=
  capsule ∈ injected x ∧ capsule.dstAddress ∉ topology.addresses x

/-- A capsule has been put in by the node itself, or by the node at the other end of the interface
with its destination address. The address of the interface is not sent, see
`Action.arrived`. -/
def Origin (topology : Topology ι κ) (injected : ι → List CCapsule) (x : ι)
    (capsule : CCapsule) : Prop :=
  capsule ∈ injected x ∨ ∃ y index other sent, topology.peer y index = some (x, other) ∧
    (topology.addresses x)[other]? = some capsule.dstAddress ∧
    Departing topology injected y sent ∧
    capsule = sent.setFromInterfaceAddress capsule.interfaceAddress

/-- No capsule at a station has been passed on by another station. -/
structure OneHop (topology : Topology ι κ) (injected : ι → List CCapsule) (x : ι)
    (station : Station κ) : Prop where
  honest : Honest topology x station.node
  inputQueue : ∀ capsule ∈ station.m_inputQueue.m_que,
    capsule.dstAddress ≠ sanDefaultAddress → Origin topology injected x capsule
  routing : ∀ capsule index, station.routing = some (capsule, index) →
    capsule.dstAddress ≠ sanDefaultAddress → Departing topology injected x capsule
  outputQueue : ∀ index, ∀ capsule ∈ station.node.outputQueue index,
    capsule.dstAddress ≠ sanDefaultAddress → Departing topology injected x capsule ∧
      topology.peerAddress x index = some capsule.dstAddress
  wires : ∀ index, ∀ capsule ∈ station.wires index,
    capsule.dstAddress ≠ sanDefaultAddress → Departing topology injected x capsule ∧
      topology.peerAddress x index = some capsule.dstAddress
  delivered : ∀ entry ∈ station.delivered, entry.2.dstAddress ∈ topology.addresses x ∧
    (entry.2.dstAddress ≠ sanDefaultAddress → Origin topology injected x entry.2)

variable {topology : Topology ι κ} {injected injected' : ι → List CCapsule} {x : ι}

/-- What was put in stays put in. -/
theorem Departing.mono {capsule : CCapsule} (h : Departing topology injected x capsule)
    (hmore : ∀ y, injected y ⊆ injected' y) : Departing topology injected' x capsule :=
  ⟨hmore x h.1, h.2⟩

/-- Where a capsule comes from stays so. -/
theorem Origin.mono {capsule : CCapsule} (h : Origin topology injected x capsule)
    (hmore : ∀ y, injected y ⊆ injected' y) : Origin topology injected' x capsule := by
  rcases h with hown | ⟨y, index, other, sent, hpeer, haddress, hsent, heq⟩
  · exact .inl (hmore x hown)
  · exact .inr ⟨y, index, other, sent, hpeer, haddress, hsent.mono hmore, heq⟩

/-- A capsule that is not for the node itself has been put in there. -/
theorem Origin.departing {capsule : CCapsule} (h : Origin topology injected x capsule)
    (hother : capsule.dstAddress ∉ topology.addresses x) :
    Departing topology injected x capsule := by
  rcases h with hown | ⟨y, index, other, sent, -, haddress, -⟩
  · exact ⟨hown, hother⟩
  · exact absurd (List.mem_of_getElem? haddress) hother

/-- What is known of a station stays so when more is put in. -/
theorem OneHop.mono {station : Station κ} (h : OneHop topology injected x station)
    (hmore : ∀ y, injected y ⊆ injected' y) : OneHop topology injected' x station where
  honest := h.honest
  inputQueue capsule hmem hdst := (h.inputQueue capsule hmem hdst).mono hmore
  routing capsule index hrouting hdst := (h.routing capsule index hrouting hdst).mono hmore
  outputQueue index capsule hmem hdst :=
    (h.outputQueue index capsule hmem hdst).imp_left fun hdeparting => hdeparting.mono hmore
  wires index capsule hmem hdst :=
    (h.wires index capsule hmem hdst).imp_left fun hdeparting => hdeparting.mono hmore
  delivered entry hmem :=
    (h.delivered entry hmem).imp_right fun horigin hdst => (horigin hdst).mono hmore

/-- An event of the node that is not a transmission leaves the output queues alone. -/
theorem OneHop.event [DecidableEq κ] {station : Station κ} (h : OneHop topology injected x station)
    {event : CNode.Event κ} (hqueue : ∀ index, event ≠ .line index .transmitted)
    (hhonest : Honest topology x (station.node.apply event)) :
    OneHop topology injected x { station with node := station.node.apply event } where
  honest := hhonest
  inputQueue := h.inputQueue
  routing := h.routing
  outputQueue index := by
    rw [CNode.outputQueue_apply station.node hqueue index]
    exact h.outputQueue index
  wires := h.wires
  delivered := h.delivered

/-- What is sent over a link comes to the node at its other end. -/
theorem OneHop.arrives {station : Station κ} {index other : ℕ} {y : ι} {address : SanAddress}
    {capsule : CCapsule} (h : OneHop topology injected x station)
    (hpeer : topology.peer x index = some (y, other))
    (haddress : (topology.addresses y)[other]? = some address)
    (hmem : capsule ∈ station.wires index) (hdst : capsule.dstAddress ≠ sanDefaultAddress) :
    Departing topology injected x capsule ∧ address = capsule.dstAddress := by
  obtain ⟨hdeparting, hannounced⟩ := h.wires index capsule hmem hdst
  unfold Topology.peerAddress at hannounced
  rw [hpeer, Option.bind_some] at hannounced
  dsimp only at hannounced
  rw [haddress] at hannounced
  exact ⟨hdeparting, Option.some.inj hannounced⟩

/-- The front of an output queue goes to the link of the same interface. -/
theorem OneHop.transmitted [DecidableEq κ] {station : Station κ}
    (h : OneHop topology injected x station) {index : ℕ} {capsule : CCapsule}
    (hmem : capsule ∈ station.node.outputQueue index)
    (hhonest : Honest topology x (station.node.apply (.line index .transmitted))) :
    OneHop topology injected x { station with
      node := station.node.apply (.line index .transmitted)
      wires := Function.update station.wires index (station.wires index ++ [capsule]) } := by
  refine ⟨hhonest, h.inputQueue, h.routing, fun other sent hsent => ?_,
    fun other sent hsent => ?_, h.delivered⟩
  · apply h.outputQueue other sent
    rw [CNode.outputQueue_transmitted] at hsent
    split_ifs at hsent
    · exact List.mem_of_mem_tail hsent
    · exact hsent
  · dsimp only at hsent
    rw [Function.update_apply] at hsent
    split_ifs at hsent with heq
    · subst heq
      rcases List.mem_append.mp hsent with hsent | hsent
      · exact h.wires other sent hsent
      · rw [List.mem_singleton.mp hsent]
        exact h.outputQueue other capsule hmem
    · exact h.wires other sent hsent

/-- The router queues a capsule only at the interface whose peer has its address. -/
theorem OneHop.looked {station : Station κ} (h : OneHop topology injected x station)
    {capsule : CCapsule} {index : ℕ} {line : Line}
    (hrouting : station.routing = some (capsule, index))
    (hline : station.node.m_interfaces[index]? = some line)
    (hhonest : Honest topology x { station.node with
      m_interfaces := station.node.m_interfaces.set index (line.forward capsule false).2 }) :
    OneHop topology injected x { station with
      node := { station.node with
        m_interfaces := station.node.m_interfaces.set index (line.forward capsule false).2 }
      routing := some (capsule, index + 1) } := by
  have hdeparting := h.routing capsule index hrouting
  refine ⟨hhonest, h.inputQueue, fun other next hnext => ?_, fun other sent hmem hdst => ?_,
    h.wires, h.delivered⟩
  · obtain ⟨rfl, -⟩ := Prod.mk.inj (Option.some.inj hnext)
    exact hdeparting
  · rcases CNode.outputQueue_set hline capsule false other with hsame | ⟨rfl, hpeer, hqueued⟩
    · rw [hsame] at hmem
      exact h.outputQueue other sent hmem hdst
    · rw [hqueued] at hmem
      rcases List.mem_append.mp hmem with hmem | hmem
      · exact h.outputQueue other sent hmem hdst
      · obtain rfl := List.mem_singleton.mp hmem
        refine ⟨hdeparting hdst, ?_⟩
        rcases h.honest.peer other line hline with hdefault | hannounced
        · exact absurd (hpeer.trans hdefault) hdst
        · rw [hpeer]
          exact hannounced

/-- Every action of a station keeps the capsules at one hop. -/
theorem OneHop.happens [DecidableEq κ] {station station' : Station κ}
    {action : Station.Action κ} (h : OneHop topology injected x station)
    (hadmits : topology.Admits x action)
    (hhappens : Station.Happens (topology.host x) station action station')
    (hmore : ∀ y, injected y ⊆ injected' y) (hinjected : station'.injected ⊆ injected' x) :
    OneHop topology injected' x station' := by
  have hhonest := h.honest.happens hadmits hhappens
  have hlater := h.mono hmore
  have hreached : ∀ capsule, station.node.destinationReached capsule = true ↔
      capsule.dstAddress ∈ topology.addresses x := by
    intro capsule
    rw [CNode.destinationReached_iff, h.honest.addresses]
  cases hhappens with
  | inject capsule q hque =>
    refine ⟨hhonest, fun other hmem hdst => ?_, hlater.routing, hlater.outputQueue, hlater.wires,
      hlater.delivered⟩
    rw [hque, List.mem_append, List.mem_singleton] at hmem
    rcases hmem with hmem | rfl
    · exact hlater.inputQueue other hmem hdst
    · exact .inl (hinjected (List.mem_append_right _ List.mem_cons_self))
  | port call => exact hlater.event (by simp) hhonest
  | taken applicationQueue capsule rest hque =>
    have hevent := hlater.event (by simp) hhonest
    exact ⟨hhonest, hevent.inputQueue, hevent.routing, hevent.outputQueue, hevent.wires,
      hevent.delivered⟩
  | connected index data => exact hlater.event (by simp) hhonest
  | disconnected index => exact hlater.event (by simp) hhonest
  | transmitted index capsule rest hque =>
    have hfront : capsule ∈ station.node.outputQueue index := by
      rw [hque]
      exact List.mem_cons_self
    exact hlater.transmitted hfront hhonest
  | lost index place =>
    refine ⟨hhonest, hlater.inputQueue, hlater.routing, hlater.outputQueue,
      fun other sent hmem => ?_, hlater.delivered⟩
    dsimp only at hmem
    rw [Function.update_apply] at hmem
    split_ifs at hmem with heq
    · subst heq
      exact hlater.wires other sent (List.mem_of_mem_eraseIdx hmem)
    · exact hlater.wires other sent hmem
  | own capsule q handled hque hown hhandle hidle hrunning =>
    obtain ⟨hinterfaces, -⟩ := CNode.handle_own hown hhandle
    refine ⟨hhonest, fun other hmem => ?_, hlater.routing, fun index => ?_, hlater.wires,
      fun entry hmem => ?_⟩
    · apply hlater.inputQueue
      rw [hque]
      exact List.mem_cons_of_mem capsule hmem
    · rw [CNode.outputQueue, hinterfaces]
      exact hlater.outputQueue index
    · rcases List.mem_append.mp hmem with hmem | hmem
      · exact hlater.delivered entry hmem
      · obtain ⟨dsque, -, rfl⟩ := List.mem_map.mp hmem
        refine ⟨(hreached capsule).mp hown, hlater.inputQueue capsule ?_⟩
        rw [hque]
        exact List.mem_cons_self
  | other capsule q hque hother hidle hrunning =>
    refine ⟨hhonest, fun other hmem => ?_, fun other index hrouting hdst => ?_,
      hlater.outputQueue, hlater.wires, hlater.delivered⟩
    · apply hlater.inputQueue
      rw [hque]
      exact List.mem_cons_of_mem capsule hmem
    · obtain ⟨rfl, -⟩ := Prod.mk.inj (Option.some.inj hrouting)
      have hfirst := hlater.inputQueue capsule (by rw [hque]; exact List.mem_cons_self) hdst
      apply hfirst.departing
      rw [← hreached, hother]
      exact Bool.false_ne_true
  | looked capsule index line hrouting hline => exact hlater.looked hrouting hline hhonest
  | finished capsule index hrouting hnone =>
    refine ⟨hhonest, hlater.inputQueue, fun other next hnext => ?_, hlater.outputQueue,
      hlater.wires, hlater.delivered⟩
    cases hnext

/-! ## The network -/

/-- What can happen in a network. -/
inductive Action (ι κ : Type)
  /-- A thread of a node does something. -/
  | station (x : ι) (action : Station.Action κ)
  /-- The first capsule on a link is received into the memory of a new capsule. The address
  is what is found where `m_interfaceAddress` refers to: the address of the interface that
  the function object was made with was a temporary one. -/
  | arrived (x : ι) (index : ℕ) (memory : CCapsule) (interfaceAddress : SanAddress)

/-- A network in which nothing has happened. -/
def start (topology : Topology ι κ) : CapsuleNetwork ι κ := fun x =>
  .start (topology.interfaces x) (topology.inputQueueMaxSize x) (topology.applicationQueueSize x)

/-- At first all interfaces are new. -/
theorem start_interfaces {topology : Topology ι κ} {x : ι} {index : ℕ} {line : Line}
    (hline : (start topology x).node.m_interfaces[index]? = some line) :
    ∃ address size, line = .create address size := by
  simp only [start, Station.start, CNode.start, List.getElem?_map] at hline
  obtain ⟨entry, -, rfl⟩ := Option.map_eq_some_iff.mp hline
  exact ⟨entry.1, entry.2, rfl⟩

/-- At first no capsule waits at an interface. -/
theorem outputQueue_start (topology : Topology ι κ) (x : ι) (index : ℕ) :
    (start topology x).node.outputQueue index = [] := by
  unfold CNode.outputQueue
  cases hline : (start topology x).node.m_interfaces[index]? with
  | none => rfl
  | some line =>
    obtain ⟨address, size, rfl⟩ := start_interfaces hline
    rfl

variable [DecidableEq ι]

/-- The capsules on a link change. -/
def withWire (network : CapsuleNetwork ι κ) (x : ι) (index : ℕ) (rest : List CCapsule) :
    CapsuleNetwork ι κ :=
  Function.update network x { network x with
    wires := Function.update (network x).wires index rest }

/-- `SendCapsuleFuncIn` of the interface at the other end. -/
def receive (topology : Topology ι κ) (y : ι) (interfaceAddress : SanAddress) (memory : CCapsule)
    (bytes : Bytes) (network : CapsuleNetwork ι κ) : Option (CapsuleNetwork ι κ) :=
  let (ok, capsule) := memory.unpack (topology.host y) bytes
  if ok then
    ((network y).push (.push (capsule.setFromInterfaceAddress interfaceAddress))).map
      (Function.update network y)
  else some network

/-- The network after an action; none if the action is not possible. -/
def step [DecidableEq κ] (topology : Topology ι κ) (network : CapsuleNetwork ι κ) :
    Action ι κ → Option (CapsuleNetwork ι κ)
  | .station x action =>
    if topology.Admits x action then
      ((network x).step (topology.host x) action).map (Function.update network x)
    else none
  | .arrived x index memory interfaceAddress =>
    match (network x).wires index, topology.peer x index with
    | capsule :: rest, some (y, other) =>
      if other < (topology.addresses y).length then
        receive topology y interfaceAddress memory (capsule.pack (topology.host x))
          (withWire network x index rest)
      else none
    | _, _ => none

/-- A capsule comes from one station to another: only the link and the input queue at its other
end change. -/
structure Arrives (network : CapsuleNetwork ι κ) (x : ι) (index : ℕ) (y : ι)
    (interfaceAddress : SanAddress) (capsule : CCapsule) (rest : List CCapsule)
    (network' : CapsuleNetwork ι κ) : Prop where
  wire : (network x).wires index = capsule :: rest
  node : ∀ z, (network' z).node = (network z).node
  routing : ∀ z, (network' z).routing = (network z).routing
  injected : ∀ z, (network' z).injected = (network z).injected
  delivered : ∀ z, (network' z).delivered = (network z).delivered
  taken : ∀ z, (network' z).taken = (network z).taken
  wires : ∀ z, (network' z).wires = if z = x then
    Function.update (network x).wires index rest else (network z).wires
  inputQueue : ∀ z, (network' z).m_inputQueue.m_que = if z = y then
    (network z).m_inputQueue.m_que ++ [capsule.setFromInterfaceAddress interfaceAddress]
    else (network z).m_inputQueue.m_que

/-- A capsule that is put on the queue at the other end arrives. -/
theorem arrives_update {x y : ι} {index : ℕ} {interfaceAddress : SanAddress} {capsule : CCapsule}
    {rest : List CCapsule} {q : CProducerConsumer CCapsule} {network : CapsuleNetwork ι κ}
    (hwire : (network x).wires index = capsule :: rest)
    (hque : q.m_que =
      (network y).m_inputQueue.m_que ++ [capsule.setFromInterfaceAddress interfaceAddress]) :
    Arrives network x index y interfaceAddress capsule rest
      (Function.update (withWire network x index rest) y
        { withWire network x index rest y with m_inputQueue := q }) := by
  refine ⟨hwire, ?_, ?_, ?_, ?_, ?_, ?_, ?_⟩ <;> intro z <;> unfold withWire <;>
    by_cases hy : z = y <;> by_cases hx : z = x
  all_goals grind [Function.update]

variable [DecidableEq κ] {topology : Topology ι κ} {network network' : CapsuleNetwork ι κ}

/-- A step of a station is admitted, and something happens at this station only. -/
theorem happens_of_step {x : ι} {action : Station.Action κ}
    (h : step topology network (.station x action) = some network') :
    topology.Admits x action ∧ ∃ station',
      Station.Happens (topology.host x) (network x) action station' ∧
        network' = Function.update network x station' := by
  simp only [step, Option.ite_none_right_eq_some, Option.map_eq_some_iff] at h
  obtain ⟨hadmits, station', hstep, rfl⟩ := h
  exact ⟨hadmits, station', Station.happens_of_step hstep, rfl⟩

/-- An arrival takes the first capsule from a wire to the queue at its other end. -/
theorem arrives_of_step {x : ι} {index : ℕ} {memory : CCapsule} {interfaceAddress : SanAddress}
    (h : step topology network (.arrived x index memory interfaceAddress) = some network') :
    ∃ y other address capsule rest, topology.peer x index = some (y, other) ∧
      (topology.addresses y)[other]? = some address ∧
      Arrives network x index y interfaceAddress capsule rest network' := by
  simp only [step] at h
  split at h
  · next capsule rest y other hwire hpeer =>
    split_ifs at h with hother
    refine ⟨y, other, (topology.addresses y)[other], capsule, rest, hpeer,
      List.getElem?_eq_getElem hother, ?_⟩
    unfold receive at h
    rw [CCapsule.unpack_pack] at h
    simp only [if_true] at h
    obtain ⟨station', hpush, rfl⟩ := Option.map_eq_some_iff.mp h
    obtain ⟨code, q, out, hloop, rfl⟩ := Station.push_eq_some hpush
    have hque := CProducerConsumer.que_of_pushLoop hloop
    have hqueue : (withWire network x index rest y).m_inputQueue =
        (network y).m_inputQueue := by
      unfold withWire
      rw [Function.update_apply]
      split_ifs with heq
      · rw [heq]
      · rfl
    rw [hqueue] at hque
    exact arrives_update hwire hque
  · cases h

/-- What each node has put in. -/
def injectedAt (network : CapsuleNetwork ι κ) : ι → List CCapsule := fun x => (network x).injected

/-- No capsule anywhere has been passed on by a second station. -/
def Inv (topology : Topology ι κ) (network : CapsuleNetwork ι κ) : Prop :=
  ∀ x, OneHop topology (injectedAt network) x (network x)

omit [DecidableEq ι] [DecidableEq κ] in
/-- Nothing has been put in yet. -/
theorem inv_start (topology : Topology ι κ) : Inv topology (start topology) := by
  intro x
  refine ⟨⟨?_, fun index line hline => ?_⟩, fun capsule hmem => absurd hmem List.not_mem_nil,
    fun capsule index hrouting => (nomatch hrouting), fun index capsule hmem => ?_,
    fun index capsule hmem => absurd hmem List.not_mem_nil,
    fun entry hmem => absurd hmem List.not_mem_nil⟩
  · unfold CNode.addresses Topology.addresses
    exact List.map_map
  · obtain ⟨address, size, rfl⟩ := start_interfaces hline
    exact .inl rfl
  · rw [outputQueue_start] at hmem
    exact absurd hmem List.not_mem_nil

omit [DecidableEq κ] in
/-- What arrives at the other end of a link has been put in where it comes from. -/
theorem Inv.arrives (h : Inv topology network) {x y : ι} {index other : ℕ}
    {address interfaceAddress : SanAddress} {capsule : CCapsule} {rest : List CCapsule} (hpeer : topology.peer x index = some (y, other))
    (haddress : (topology.addresses y)[other]? = some address)
    (harrives : Arrives network x index y interfaceAddress capsule rest network') :
    Inv topology network' := by
  intro z
  have hz := h z
  have hinjected : injectedAt network' = injectedAt network := funext harrives.injected
  rw [hinjected]
  refine ⟨?_, fun sent hmem hdst => ?_, ?_, ?_, fun other' sent hmem => ?_, ?_⟩
  · rw [harrives.node]
    exact hz.honest
  · rw [harrives.inputQueue] at hmem
    split_ifs at hmem with heq
    · subst heq
      rcases List.mem_append.mp hmem with hmem | hmem
      · exact hz.inputQueue sent hmem hdst
      · obtain rfl := List.mem_singleton.mp hmem
        have hwire : capsule ∈ (network x).wires index := by
          rw [harrives.wire]
          exact List.mem_cons_self
        -- The capsule was sent there because the other end has its destination address.
        obtain ⟨hdeparting, rfl⟩ := (h x).arrives hpeer haddress hwire hdst
        exact .inr ⟨x, index, other, capsule, hpeer, haddress, hdeparting, rfl⟩
    · exact hz.inputQueue sent hmem hdst
  · rw [harrives.routing]
    exact hz.routing
  · rw [harrives.node]
    exact hz.outputQueue
  · apply hz.wires other' sent
    rw [harrives.wires] at hmem
    split_ifs at hmem with heq
    · subst heq
      rw [Function.update_apply] at hmem
      split_ifs at hmem with hindex
      · rw [hindex, harrives.wire]
        exact List.mem_cons_of_mem capsule hmem
      · exact hmem
    · exact hmem
  · rw [harrives.delivered]
    exact hz.delivered

/-- Every action keeps the invariant. -/
theorem Inv.step (h : Inv topology network) {action : Action ι κ}
    (hstep : step topology network action = some network') : Inv topology network' := by
  cases action with
  | station x action =>
    obtain ⟨hadmits, station', hhappens, rfl⟩ := happens_of_step hstep
    have hmore : ∀ y, injectedAt network y ⊆ injectedAt (Function.update network x station') y := by
      intro y
      unfold injectedAt
      rw [Function.update_apply]
      split_ifs with heq
      · rw [heq]
        exact hhappens.injected_subset
      · exact List.Subset.refl _
    intro z
    by_cases heq : z = x
    · subst heq
      rw [Function.update_self]
      refine (h z).happens hadmits hhappens hmore ?_
      unfold injectedAt
      rw [Function.update_self]
      exact List.Subset.refl _
    · rw [Function.update_of_ne heq]
      exact (h z).mono hmore
  | arrived x index memory interfaceAddress =>
    obtain ⟨y, other, address, capsule, rest, hpeer, haddress, harrives⟩ := arrives_of_step hstep
    exact h.arrives hpeer haddress harrives

/-- What a step puts in, a thread of the node puts in. -/
theorem injected_of_step {action : Action ι κ} (hstep : step topology network action = some network')
    (x : ι) (capsule : CCapsule) (hmem : capsule ∈ (network' x).injected) :
    capsule ∈ (network x).injected ∨ action = .station x (.inject capsule) := by
  cases action with
  | station y action =>
    obtain ⟨-, station', hhappens, rfl⟩ := happens_of_step hstep
    rw [Function.update_apply] at hmem
    split_ifs at hmem with heq
    · subst heq
      by_cases hinject : ∃ put, action = .inject put
      · obtain ⟨put, rfl⟩ := hinject
        cases hhappens with
        | inject _ q hque =>
          rcases List.mem_append.mp hmem with hold | hnew
          · exact .inl hold
          · obtain rfl := List.mem_singleton.mp hnew
            exact .inr rfl
      · rw [hhappens.injected_eq fun put heq => hinject ⟨put, heq⟩] at hmem
        exact .inl hmem
    · exact .inl hmem
  | arrived y index memory interfaceAddress =>
    obtain ⟨z, other, address, sent, rest, -, -, harrives⟩ := arrives_of_step hstep
    rw [harrives.injected] at hmem
    exact .inl hmem

/-- The invariant holds after every run. -/
theorem inv_of_run {actions : List (Action ι κ)}
    (hrun : Execution.run (step topology) (start topology) actions = some network) :
    Inv topology network :=
  Execution.run_preserves (Inv topology) (fun h hstep => h.step hstep) (inv_start topology) hrun

/-- Every action leaves all stations settled. -/
theorem settled_step {action : Action ι κ} (h : ∀ x, (network x).Settled)
    (hstep : step topology network action = some network') (x : ι) : (network' x).Settled := by
  cases action with
  | station y action =>
    obtain ⟨-, station', hhappens, rfl⟩ := happens_of_step hstep
    rw [Function.update_apply]
    split_ifs
    · exact (h y).happens hhappens
    · exact h x
  | arrived y index memory interfaceAddress =>
    obtain ⟨z, other, address, capsule, rest, -, -, harrives⟩ := arrives_of_step hstep
    unfold Station.Settled
    rw [harrives.delivered, harrives.taken, harrives.node]
    exact h x

omit [DecidableEq ι] in
/-- At first all stations are settled. -/
theorem settled_start (topology : Topology ι κ) (x : ι) : (start topology x).Settled :=
  fun _ => rfl

/-- After every run all stations are settled. -/
theorem settled_of_run {actions : List (Action ι κ)}
    (hrun : Execution.run (step topology) (start topology) actions = some network) (x : ι) :
    (network x).Settled :=
  Execution.run_preserves (fun network => ∀ x, (network x).Settled)
    (fun h hstep => settled_step h hstep) (settled_start topology) hrun x

omit [DecidableEq ι] in
/-- What an application has taken is for its node, which knows where it comes from. -/
theorem Inv.taken (h : Inv topology network) {x : ι} (hsettled : (network x).Settled)
    {applicationQueue : κ} {capsule : CCapsule}
    (hmem : capsule ∈ Station.ofQueue applicationQueue (network x).taken) :
    capsule.dstAddress ∈ topology.addresses x ∧ (capsule.dstAddress ≠ sanDefaultAddress →
      Origin topology (injectedAt network) x capsule) := by
  have hdelivered : capsule ∈ Station.ofQueue applicationQueue (network x).delivered := by
    rw [hsettled applicationQueue]
    exact List.mem_append_left _ hmem
  obtain ⟨entry, hentry, hsome⟩ := List.mem_filterMap.mp hdelivered
  split_ifs at hsome
  obtain rfl := Option.some.inj hsome
  exact (h x).delivered entry hentry

/-- In every run, whatever is on a link to an address was put in by the node that has sent it, and
the node at the other end does not send it on; and whatever an application has taken was put in
by its own node or by the node at the other end of the interface with the destination address.
Only the default address is left out, which an interface without a peer seems to lead to. -/
theorem no_relay {actions : List (Action ι κ)}
    (hrun : Execution.run (step topology) (start topology) actions = some network) (x : ι) :
    (∀ index, ∀ capsule ∈ (network x).wires index, capsule.dstAddress ≠ sanDefaultAddress →
      Departing topology (injectedAt network) x capsule ∧
        ∃ y other, topology.peer x index = some (y, other) ∧
          (network y).node.destinationReached capsule = true) ∧
    (∀ applicationQueue, ∀ capsule ∈ Station.ofQueue applicationQueue (network x).taken,
      capsule.dstAddress ∈ topology.addresses x ∧
        (capsule.dstAddress ≠ sanDefaultAddress →
          Origin topology (injectedAt network) x capsule)) := by
  have hinv := inv_of_run hrun
  constructor
  · intro index capsule hmem hdst
    obtain ⟨hdeparting, hannounced⟩ := (hinv x).wires index capsule hmem hdst
    obtain ⟨⟨y, other⟩, hpeer, haddress⟩ := Option.bind_eq_some_iff.mp hannounced
    refine ⟨hdeparting, y, other, hpeer, ?_⟩
    rw [CNode.destinationReached_iff, (hinv y).honest.addresses]
    exact List.mem_of_getElem? haddress
  · intro applicationQueue capsule hmem
    exact hinv.taken (settled_of_run hrun x) hmem

/-- Two nodes with one interface each. -/
def pair : Topology Bool Unit where
  host x := if x then .bigEndian else .littleEndian
  interfaces x := [(FixedBytes.replicate 32 (if x then 8 else 7), 1)]
  inputQueueMaxSize _ := 1
  applicationQueueSize _ _ := 1
  peer x index := if index = 0 then some (!x, 0) else none

/-- A datagram for port 7 of the second node. -/
def datagram : CCapsule :=
  (CNode.sampleCapsule (FixedBytes.replicate 32 8)).setDSdata .littleEndian 7 7 [65]

/-- The second node connects to the first one, which sends it a datagram. -/
def exchange : List (Action Bool Unit) :=
  [.station true (.port (.registerPort 7 ())),
    .station false (.connected 0 (firstMessage (FixedBytes.replicate 32 8))),
    .station false (.inject datagram), .station false .popped, .station false .looked,
    .station false (.transmitted 0), .arrived false 0 datagram (FixedBytes.replicate 32 8),
    .station true .popped, .station true (.taken ())]

/-- A capsule goes from one node of a pair to the application of the other. -/
theorem exchange_delivers :
    ∃ network, Execution.run (step pair) (start pair) exchange = some network ∧
      Station.ofQueue () (network true).taken =
        [datagram.setFromInterfaceAddress (FixedBytes.replicate 32 8)] :=
  ⟨_, rfl, by decide +kernel⟩

/-- In this exchange nothing is relayed. -/
theorem no_relay_exchange :
    ∃ network, Execution.run (step pair) (start pair) exchange = some network ∧
      (∀ index, ∀ capsule ∈ (network true).wires index,
        capsule.dstAddress ≠ sanDefaultAddress →
          Departing pair (injectedAt network) true capsule ∧
            ∃ y other, pair.peer true index = some (y, other) ∧
              (network y).node.destinationReached capsule = true) ∧
      (∀ applicationQueue, ∀ capsule ∈ Station.ofQueue applicationQueue (network true).taken,
        capsule.dstAddress ∈ pair.addresses true ∧
          (capsule.dstAddress ≠ sanDefaultAddress →
            Origin pair (injectedAt network) true capsule)) := by
  obtain ⟨network, hrun, -⟩ := exchange_delivers
  exact ⟨network, hrun, no_relay hrun true⟩

end CapsuleNetwork

end San2.Node
