import San2.Network.CCapsule
import San2.Utils.CProducerConsumer

/-!
# The interface of a node to one peer

An interface keeps the address that its peer has announced in the first message of
the connection, and the default address while no peer is connected. Capsules to the
peer wait in the output queue.
-/

namespace San2

namespace Network

/-- `sanDefaultAddress` -/
def sanDefaultAddress : SanAddress := FixedBytes.replicate sanAddressSize 0

/-- `sanTestMessageApplicationId` -/
def sanTestMessageApplicationId : SanApplicationId :=
  ⟨[95, 103, 20, 66, 235, 217, 66, 62, 164, 152, 26, 129, 132, 0, 211, 90, 0, 128, 182, 176], rfl⟩

end Network

namespace Interfaces

open Utils Network

/-- The members of a `CTcpInterface`. -/
structure CTcpInterface where
  m_sanaddr : SanAddress
  m_peeraddr : SanAddress
  m_outputQueue : CProducerConsumer CCapsule
  deriving DecidableEq

/-- The four bytes in front of the address in a first message. -/
def firstMessageHead : Bytes := [0x53, 0x41, 0x4E, 0x32]

/-- What an interface sends first on a new connection. -/
def firstMessage (addr : SanAddress) : Bytes := firstMessageHead ++ addr.val

/-- The first message has the length that is waited for. -/
theorem length_firstMessage (addr : SanAddress) :
    (firstMessage addr).length = 4 + sanAddressSize := by
  rw [firstMessage, List.length_append, addr.property]
  rfl

namespace CTcpInterface

/-- A new interface knows no peer. -/
def create (sanaddr : SanAddress) (maxOutputQueueSize : ℕ) : CTcpInterface :=
  ⟨sanaddr, sanDefaultAddress, .create maxOutputQueueSize⟩

/-- `CTcpInterface::getInterfaceAddress` -/
def getInterfaceAddress (iface : CTcpInterface) : SanAddress := iface.m_sanaddr

/-- `CTcpInterface::getPeerAddress` -/
def getPeerAddress (iface : CTcpInterface) : SanAddress := iface.m_peeraddr

/-- The interface with the address of its peer. -/
def setPeerAddress (iface : CTcpInterface) (address : SanAddress) : CTcpInterface :=
  { iface with m_peeraddr := address }

/-- Put a capsule on the output queue, or drop it. The thread is the one that calls. -/
def sendCapsule (iface : CTcpInterface) (capsule : CCapsule) (terminated : Bool) :
    Bool × CTcpInterface :=
  let (code, q) := iface.m_outputQueue.try_pushNow capsule terminated
  (code == 0, { iface with m_outputQueue := q })

/-- A capsule is queued or dropped. -/
theorem sendCapsule_cases (iface : CTcpInterface) (capsule : CCapsule) (terminated : Bool) :
    iface.sendCapsule capsule terminated = (false, iface) ∨
      iface.sendCapsule capsule terminated = (true, { iface with
        m_outputQueue := { iface.m_outputQueue with
          m_que := iface.m_outputQueue.m_que ++ [capsule] } }) := by
  unfold sendCapsule CProducerConsumer.try_pushNow
  split_ifs
  · exact Or.inl rfl
  · exact Or.inl rfl
  · exact Or.inr rfl

/-- `CCapsuleReceiver::parseFirstMessage` of the receiver of the interface. -/
def parseFirstMessage (iface : CTcpInterface) (data : Bytes) : Bool × CTcpInterface :=
  if h : data.length ≠ 4 + sanAddressSize then (false, iface)
  else
    have hsize : 4 + sanAddressSize = data.length := (not_not.mp h).symm
    if data[0] ≠ 0x53 then (false, iface)
    else if data[1] ≠ 0x41 then (false, iface)
    else if data[2] ≠ 0x4E then (false, iface)
    else if data[3] ≠ 0x32 then (false, iface)
    else (true, iface.setPeerAddress (FixedBytes.read sanAddressSize data 4 (by omega)))

/-- The first message of the peer does not change the address of the interface. -/
theorem parseFirstMessage_sanaddr (iface : CTcpInterface) (data : Bytes) :
    (iface.parseFirstMessage data).2.m_sanaddr = iface.m_sanaddr := by
  unfold parseFirstMessage
  split_ifs <;> rfl

/-- A first message is accepted and its address remembered. -/
theorem parseFirstMessage_firstMessage (iface : CTcpInterface) (addr : SanAddress) :
    iface.parseFirstMessage (firstMessage addr) = (true, iface.setPeerAddress addr) := by
  have hlength := length_firstMessage addr
  have hread : FixedBytes.read sanAddressSize (firstMessage addr) 4 (by omega) = addr := by
    apply Subtype.ext
    simp only [FixedBytes.read]
    have hdrop : (firstMessage addr).drop 4 = addr.val := List.drop_left' rfl
    rw [hdrop]
    exact List.take_of_length_le addr.property.le
  unfold parseFirstMessage
  rw [dif_neg (by simpa using hlength)]
  simp [firstMessage, firstMessageHead] at hread ⊢
  rw [hread]

/-- Nothing else is accepted, and what is not accepted changes nothing. -/
theorem parseFirstMessage_eq (iface : CTcpInterface) (data : Bytes) :
    iface.parseFirstMessage data = (false, iface) ∨ ∃ addr, data = firstMessage addr := by
  unfold parseFirstMessage
  split_ifs with hlength h0 h1 h2 h3
  · exact Or.inl rfl
  · exact Or.inl rfl
  · exact Or.inl rfl
  · exact Or.inl rfl
  · exact Or.inl rfl
  · right
    have hsize : data.length = 36 := not_not.mp hlength
    refine ⟨⟨data.drop 4, by rw [List.length_drop, hsize]⟩, ?_⟩
    simp only [ne_eq, not_not] at h0 h1 h2 h3
    have hhead : data.take 4 = firstMessageHead := by
      refine List.ext_getElem (by simp [hsize, firstMessageHead]) fun i hi hfour => ?_
      have hi4 : i < 4 := hfour
      rw [List.getElem_take]
      obtain rfl | rfl | rfl | rfl : i = 0 ∨ i = 1 ∨ i = 2 ∨ i = 3 := by omega
      · exact h0
      · exact h1
      · exact h2
      · exact h3
    change data = firstMessageHead ++ data.drop 4
    rw [← hhead, List.take_append_drop]

end CTcpInterface

/-- The address that a first message announces. -/
def announced (data : Bytes) : Option SanAddress :=
  if h : firstMessageHead <+: data ∧ data.length = 4 + sanAddressSize then
    some ⟨data.drop 4, by rw [List.length_drop, h.2]; rfl⟩
  else none

/-- The first message announces the address. -/
theorem announced_firstMessage (addr : SanAddress) : announced (firstMessage addr) = some addr := by
  have hlength := length_firstMessage addr
  rw [announced, dif_pos ⟨List.prefix_append _ _, hlength⟩]
  exact congrArg some (Subtype.ext (List.drop_left' rfl))

/-- What announces an address is its first message. -/
theorem announced_eq_some {data : Bytes} {addr : SanAddress} (h : announced data = some addr) :
    data = firstMessage addr := by
  unfold announced at h
  split_ifs at h with hdata
  obtain ⟨⟨rest, rfl⟩, hlength⟩ := hdata
  obtain rfl := Option.some.inj h
  rfl

/-- An interface, and the address that the connected peer has announced. -/
structure Line where
  iface : CTcpInterface
  peer : Option SanAddress
  deriving DecidableEq

/-- What happens to an interface besides the router. -/
inductive LineEvent
  /-- A peer connects and sends the bytes of a first message. -/
  | connected (data : Bytes)
  /-- The connection ends. -/
  | disconnected
  /-- The sender takes a capsule from the output queue. -/
  | transmitted
  deriving DecidableEq

namespace Line

/-- A line without a peer. -/
def create (sanaddr : SanAddress) (maxOutputQueueSize : ℕ) : Line :=
  ⟨.create sanaddr maxOutputQueueSize, none⟩

/-- `CCapsuleReceiver::receive` around the run of the executor. There is one
connection at a time. -/
def apply (line : Line) : LineEvent → Line
  | .connected data =>
    match line.peer with
    | some _ => line
    | none => ⟨(line.iface.parseFirstMessage data).2, announced data⟩
  | .disconnected =>
    match line.peer with
    | some _ => ⟨line.iface.setPeerAddress sanDefaultAddress, none⟩
    | none => line
  | .transmitted =>
    { line with iface := { line.iface with
        m_outputQueue := { line.iface.m_outputQueue with
          m_que := line.iface.m_outputQueue.m_que.tail } } }

/-- The address that the router compares with is that of the connected peer, or the
default address. -/
def Knows (line : Line) : Prop := line.iface.m_peeraddr = line.peer.getD sanDefaultAddress

/-- A new interface has no peer, and the default address for it. -/
theorem knows_create (sanaddr : SanAddress) (maxOutputQueueSize : ℕ) :
    (create sanaddr maxOutputQueueSize).Knows := rfl

/-- After every event the address is still that of the connected peer, or the default one. -/
theorem Knows.apply {line : Line} (h : line.Knows) (event : LineEvent) :
    (line.apply event).Knows := by
  cases event with
  | connected data =>
    cases hpeer : line.peer with
    | some addr => simpa only [Line.apply, hpeer] using h
    | none =>
      have hdefault : line.iface.m_peeraddr = sanDefaultAddress := by
        rw [h, hpeer]
        rfl
      rcases CTcpInterface.parseFirstMessage_eq line.iface data with hreject | ⟨addr, rfl⟩
      · have hnone : announced data = none := by
          rw [Option.eq_none_iff_forall_ne_some]
          intro addr hsome
          rw [announced_eq_some hsome, CTcpInterface.parseFirstMessage_firstMessage] at hreject
          exact absurd (congrArg Prod.fst hreject) (by simp)
        simp only [Line.apply, hpeer, hreject, hnone]
        exact hdefault
      · simp only [Line.apply, hpeer, CTcpInterface.parseFirstMessage_firstMessage,
          announced_firstMessage]
        rfl
  | disconnected =>
    cases hpeer : line.peer with
    | some addr =>
      simp only [Line.apply, hpeer]
      rfl
    | none => simpa only [Line.apply, hpeer] using h
  | transmitted => exact h

/-- What the router finds and does when it looks at an interface. -/
structure Look where
  peer : Option SanAddress
  full : Bool
  /-- The output queue before and after. -/
  before : List CCapsule
  after : List CCapsule
  deriving DecidableEq

/-- The second pass of the router at one interface. -/
def forward (line : Line) (capsule : CCapsule) (terminated : Bool) : Look × Line :=
  let iface :=
    if capsule.dstAddress = line.iface.getPeerAddress then
      (line.iface.sendCapsule capsule terminated).2
    else line.iface
  (⟨line.peer, line.iface.m_outputQueue.isFull, line.iface.m_outputQueue.m_que,
    iface.m_outputQueue.m_que⟩, { line with iface := iface })

/-- Forwarding does not change addresses. -/
theorem forward_addresses (line : Line) (capsule : CCapsule) (terminated : Bool) :
    (line.forward capsule terminated).2.peer = line.peer ∧
      (line.forward capsule terminated).2.iface.m_peeraddr = line.iface.m_peeraddr ∧
      (line.forward capsule terminated).2.iface.m_sanaddr = line.iface.m_sanaddr := by
  unfold forward
  split_ifs
  · exact ⟨rfl, rfl, rfl⟩
  · exact ⟨rfl, rfl, rfl⟩

/-- The capsule is put on the output queue where the connected peer has announced its
destination and the queue has room, and nowhere else. -/
def Forwarded (line : Line) (capsule : CCapsule) (look : Look) : Prop :=
  look.after = if line.peer = some capsule.dstAddress ∧ line.iface.m_outputQueue.isFull = false
    then look.before ++ [capsule] else look.before

/-- The router tells the peer of an interface from the absence of one, except where the
destination is the default address. -/
theorem Knows.forwarded_iff {line : Line} (h : line.Knows) (capsule : CCapsule) :
    line.Forwarded capsule (line.forward capsule false).1 ↔
      (capsule.dstAddress = sanDefaultAddress → line.iface.m_outputQueue.isFull = false →
        line.peer ≠ none) := by
  have hknows : line.iface.getPeerAddress = line.peer.getD sanDefaultAddress := h
  have hlonger : line.iface.m_outputQueue.m_que ++ [capsule] ≠ line.iface.m_outputQueue.m_que := by
    simp
  unfold Forwarded forward
  simp only [hknows]
  cases hfull : line.iface.m_outputQueue.isFull with
  | true =>
    simp only [CTcpInterface.sendCapsule, CProducerConsumer.try_pushNow, hfull]
    simp
  | false =>
    cases hpeer : line.peer with
    | some addr =>
      by_cases haddr : capsule.dstAddress = addr
      · simp [CTcpInterface.sendCapsule, CProducerConsumer.try_pushNow, hfull, haddr]
      · have hne : addr ≠ capsule.dstAddress := fun heq => haddr heq.symm
        simp [haddr, hne]
    | none =>
      by_cases hdefault : capsule.dstAddress = sanDefaultAddress
      · simp [CTcpInterface.sendCapsule, CProducerConsumer.try_pushNow, hfull, hdefault]
      · simp [hdefault]

end Line

end Interfaces

end San2
