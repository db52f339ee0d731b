import San2.Interfaces.CCapsuleReceiver
import San2.Node.CNode

/-!
# A node among other threads

The threads of a node do one thing at a time: a thread of the interface for applications or
of a terminal puts a capsule into the input queue, the router takes one out of it and
passes it on interface by interface, and a sender takes one out of the output queue of its
interface. No thread is terminated while the node runs.
-/

namespace San2

namespace Utils.CProducerConsumer

variable {α : Type} {q q' : CProducerConsumer α} {code : ℤ} {out : Option α}

/-- What a push operation leaves is one item longer, if its thread is not terminated. -/
theorem que_of_pushLoop {patience : Patience} {item : α}
    (h : pushLoop patience item false q = .returns code q' out) :
    q'.m_que = q.m_que ++ [item] := by
  unfold pushLoop at h
  simp only [Bool.and_false, Bool.false_eq_true, if_false] at h
  split_ifs at h
  cases h
  rfl

end Utils.CProducerConsumer

namespace Node

open Utils Network Interfaces

variable {κ : Type}

namespace CNode

/-- What waits for the sender of an interface. -/
def outputQueue (node : CNode κ) (index : ℕ) : List CCapsule :=
  match node.m_interfaces[index]? with
  | some line => line.iface.m_outputQueue.m_que
  | none => []

/-- The addresses of the interfaces. -/
def addresses (node : CNode κ) : List SanAddress :=
  node.m_interfaces.map fun line => line.iface.m_sanaddr

/-- The application queue that takes a capsule to the node itself, if there is one. -/
def recipient (host : ByteOrder) (node : CNode κ) (capsule : CCapsule) : Option κ :=
  let (ok, dstport, _) := capsule.getPortsDS host 0 0
  if ok then
    match node.m_portmap.getPortQueue dstport with
    | some dsque => if (node.applicationQueues dsque).isFull then none else some dsque
    | none => none
  else none

/-- A capsule has reached its destination if an interface has its address. -/
theorem destinationReached_iff (node : CNode κ) (capsule : CCapsule) :
    node.destinationReached capsule = true ↔ capsule.dstAddress ∈ node.addresses := by
  unfold destinationReached addresses
  simp only [List.any_eq_true, List.mem_map, beq_iff_eq]
  refine exists_congr fun line => and_congr_right fun _ => ?_
  exact eq_comm

/-- To put a capsule on an output queue does not change the addresses. -/
theorem addresses_set (node : CNode κ) {index : ℕ} {line : Line}
    (hline : node.m_interfaces[index]? = some line) (capsule : CCapsule) (terminated : Bool) :
    (node.m_interfaces.set index (line.forward capsule terminated).2).map
      (fun line => line.iface.m_sanaddr) = node.addresses := by
  obtain ⟨-, -, haddr⟩ := line.forward_addresses capsule terminated
  obtain ⟨hlt, rfl⟩ := List.getElem?_eq_some_iff.mp hline
  rw [List.map_set, haddr]
  unfold addresses
  refine List.ext_getElem (by simp) fun k hk hk' => ?_
  rw [List.getElem_set]
  split_ifs with heq
  · subst heq
    rw [List.getElem_map]
  · rfl

/-- Events do not change the address of an interface. -/
theorem sanaddr_apply (line : Line) (event : LineEvent) :
    (line.apply event).iface.m_sanaddr = line.iface.m_sanaddr := by
  cases event with
  | connected data =>
    unfold Line.apply
    dsimp only
    split
    · rfl
    · exact line.iface.parseFirstMessage_sanaddr data
  | disconnected =>
    unfold Line.apply
    dsimp only
    split
    · rfl
    · rfl
  | transmitted => rfl

/-- Events of the node do not change the address of an interface. -/
theorem sanaddr_onLine (event : Event κ) (index : ℕ) (line : Line) :
    (event.onLine index line).iface.m_sanaddr = line.iface.m_sanaddr := by
  unfold Event.onLine
  split
  · split_ifs
    · exact sanaddr_apply line _
    · rfl
  · rfl
  · rfl

/-- The first message does not change the output queue. -/
theorem outputQueue_parseFirstMessage (iface : CTcpInterface) (data : Bytes) :
    (iface.parseFirstMessage data).2.m_outputQueue = iface.m_outputQueue := by
  unfold CTcpInterface.parseFirstMessage
  split_ifs <;> rfl

/-- Only a transmission changes the output queue of an interface. -/
theorem outputQueue_onLine {event : Event κ} (h : ∀ index, event ≠ .line index .transmitted)
    (index : ℕ) (line : Line) :
    (event.onLine index line).iface.m_outputQueue = line.iface.m_outputQueue := by
  unfold Event.onLine
  split
  · next other lineEvent =>
    split_ifs
    · cases lineEvent with
      | connected data =>
        unfold Line.apply
        dsimp only
        split
        · rfl
        · exact outputQueue_parseFirstMessage line.iface data
      | disconnected =>
        unfold Line.apply
        dsimp only
        split
        · rfl
        · rfl
      | transmitted => exact absurd rfl (h other)
    · rfl
  · rfl
  · rfl

/-- The output queue of an interface that is there. -/
theorem que_of_outputQueue {node : CNode κ} {index : ℕ} {line : Line}
    (h : node.m_interfaces[index]? = some line) :
    node.outputQueue index = line.iface.m_outputQueue.m_que := by
  unfold outputQueue
  rw [h]

/-- The router puts a capsule on an output queue, or leaves all as they are. -/
theorem outputQueue_set {node : CNode κ} {index : ℕ} {line : Line}
    (hline : node.m_interfaces[index]? = some line) (capsule : CCapsule) (terminated : Bool)
    (other : ℕ) :
    outputQueue { node with
        m_interfaces := node.m_interfaces.set index (line.forward capsule terminated).2 } other =
      node.outputQueue other ∨
    (other = index ∧ capsule.dstAddress = line.iface.m_peeraddr ∧
      outputQueue { node with
          m_interfaces := node.m_interfaces.set index (line.forward capsule terminated).2 } other =
        node.outputQueue other ++ [capsule]) := by
  obtain ⟨hlt, -⟩ := List.getElem?_eq_some_iff.mp hline
  by_cases heq : other = index
  · subst heq
    have hset : (node.m_interfaces.set other (line.forward capsule terminated).2)[other]? =
        some (line.forward capsule terminated).2 := List.getElem?_set_self hlt
    rw [que_of_outputQueue hset, que_of_outputQueue hline]
    unfold Line.forward
    dsimp only
    split_ifs with hpeer
    · rcases line.iface.sendCapsule_cases capsule terminated with hdropped | hqueued
      · rw [hdropped]
        exact .inl rfl
      · rw [hqueued]
        exact .inr ⟨rfl, hpeer, rfl⟩
    · exact .inl rfl
  · left
    unfold outputQueue
    rw [List.getElem?_set_ne (Ne.symm heq)]

/-- A capsule is delivered to its recipient. -/
theorem delivers_iff {host : ByteOrder} {node : CNode κ} {capsule : CCapsule}
    {applicationQueue : κ} :
    Delivers host node capsule applicationQueue ↔
      node.recipient host capsule = some applicationQueue := by
  unfold Delivers recipient
  dsimp only
  split_ifs with hports
  · cases hqueue : node.m_portmap.getPortQueue (capsule.getPortsDS host 0 0).2.1 with
    | none => simp
    | some dsque =>
      simp only [hports, Option.some.injEq, true_and]
      constructor
      · rintro ⟨rfl, hroom⟩
        simp [hroom]
      · intro h
        split_ifs at h with hfull
        obtain rfl := Option.some.inj h
        exact ⟨rfl, by simpa using hfull⟩
  · simp [hports]

section

variable [DecidableEq κ]

/-- A capsule to the node itself is put behind the others on the queue of its recipient. -/
theorem que_of_handle {host : ByteOrder} {capsule : CCapsule} {before : ℕ → List (Event κ)}
    {node : CNode κ} {handled : Handled κ} (hown : node.destinationReached capsule = true)
    (hhandle : node.handle host capsule (fun _ => false) before = some handled)
    (applicationQueue : κ) :
    (handled.node.applicationQueues applicationQueue).m_que =
      (node.applicationQueues applicationQueue).m_que ++
        if node.recipient host capsule = some applicationQueue then [capsule] else [] := by
  obtain ⟨hdelivered, hnot⟩ := (handle_own hown hhandle).2 rfl applicationQueue
  rw [delivers_iff] at hdelivered hnot
  split_ifs with hrecipient
  · exact hdelivered hrecipient
  · rw [hnot hrecipient, List.append_nil]

/-- An event changes each interface by itself. -/
theorem getElem?_apply (node : CNode κ) (event : Event κ) (index : ℕ) :
    (node.apply event).m_interfaces[index]? = node.m_interfaces[index]?.map (event.onLine index) :=
  List.getElem?_mapIdx

/-- An event does not change the addresses. -/
theorem addresses_apply (node : CNode κ) (event : Event κ) :
    (node.apply event).addresses = node.addresses := by
  unfold addresses apply
  refine List.ext_getElem (by simp) fun k hk hk' => ?_
  simp only [List.getElem_map, List.getElem_mapIdx]
  exact sanaddr_onLine event k _

/-- Only a sender takes capsules from an output queue. -/
theorem outputQueue_apply (node : CNode κ) {event : Event κ}
    (h : ∀ index, event ≠ .line index .transmitted) (index : ℕ) :
    (node.apply event).outputQueue index = node.outputQueue index := by
  unfold outputQueue
  rw [getElem?_apply]
  cases node.m_interfaces[index]? with
  | none => rfl
  | some line => exact congrArg CProducerConsumer.m_que (outputQueue_onLine h index line)

/-- A transmission takes the first capsule from its queue. -/
theorem outputQueue_transmitted (node : CNode κ) (index other : ℕ) :
    (node.apply (.line index .transmitted)).outputQueue other =
      if other = index then (node.outputQueue other).tail else node.outputQueue other := by
  unfold outputQueue
  rw [getElem?_apply]
  cases node.m_interfaces[other]? with
  | none => simp
  | some line =>
    simp only [Option.map_some, Event.onLine]
    by_cases heq : other = index
    · rw [if_pos heq, if_pos heq.symm]
      rfl
    · rw [if_neg heq, if_neg (Ne.symm heq)]

end

end CNode

/-- A node with its input queue, its router, and what has left each interface. -/
structure Station (κ : Type) where
  node : CNode κ
  m_inputQueue : CProducerConsumer CCapsule
  /-- The capsule that the router passes on, and the interface that it comes to next. -/
  routing : Option (CCapsule × ℕ)
  /-- What the sender of an interface has sent and the peer has not received. -/
  wires : ℕ → List CCapsule
  /-- What the threads of the node itself have put into the input queue. -/
  injected : List CCapsule
  /-- What the router has put on application queues. -/
  delivered : List (κ × CCapsule)
  /-- What the applications have taken from them. -/
  taken : List (κ × CCapsule)

namespace Station

/-- A node whose interfaces have no peers yet, and whose applications have not come. -/
def start (interfaces : List (SanAddress × ℕ)) (inputQueueMaxSize : ℕ)
    (applicationQueueSize : κ → ℕ) : Station κ where
  node := .start interfaces .create fun applicationQueue =>
    .create (applicationQueueSize applicationQueue)
  m_inputQueue := .create inputQueueMaxSize
  routing := none
  wires := fun _ => []
  injected := []
  delivered := []
  taken := []

/-- What a thread does next. -/
inductive Action (κ : Type)
  /-- `injectCapsule` -/
  | inject (capsule : CCapsule)
  | port (call : CPortmap.Call κ)
  /-- An application takes a capsule from its queue. -/
  | taken (applicationQueue : κ)
  /-- A peer connects and sends the bytes of a first message. -/
  | connected (index : ℕ) (data : Bytes)
  | disconnected (index : ℕ)
  /-- The sender takes a capsule from the output queue and sends it. -/
  | transmitted (index : ℕ)
  /-- A connection breaks with a capsule on it. -/
  | lost (index place : ℕ)
  /-- The router takes a capsule from the input queue. -/
  | popped
  /-- The router looks at the next interface. -/
  | looked

/-- The input queue takes a capsule as soon as it has room. -/
def push (call : CProducerConsumer.Call CCapsule) (station : Station κ) : Option (Station κ) :=
  match call.loop false station.m_inputQueue with
  | .returns _ q _ => some { station with m_inputQueue := q }
  | _ => none

/-- A push to the input queue returns at once. -/
theorem push_eq_some {station station' : Station κ} {call : CProducerConsumer.Call CCapsule}
    (h : station.push call = some station') :
    ∃ code q out, call.loop false station.m_inputQueue = .returns code q out ∧
      station' = { station with m_inputQueue := q } := by
  unfold push at h
  split at h
  · exact ⟨_, _, _, ‹_›, (Option.some.inj h).symm⟩
  · cases h

variable [DecidableEq κ]

/-- The router with a capsule from the input queue, up to its second pass. -/
def route (host : ByteOrder) (capsule : CCapsule) (station : Station κ) : Option (Station κ) :=
  if station.node.destinationReached capsule then
    (station.node.handle host capsule (fun _ => false) fun _ => []).map fun handled =>
      { station with
        node := handled.node
        delivered := station.delivered ++
          ((station.node.recipient host capsule).toList.map fun dsque => (dsque, capsule)) }
  else some { station with routing := some (capsule, 0) }

/-- The second pass at one interface, or its end. -/
def look (capsule : CCapsule) (index : ℕ) (station : Station κ) : Station κ :=
  match station.node.m_interfaces[index]? with
  | none => { station with routing := none }
  | some line =>
    { station with
      node := { station.node with
        m_interfaces := station.node.m_interfaces.set index (line.forward capsule false).2 }
      routing := some (capsule, index + 1) }

/-- A thread does something, if it can. A capsule is sent only if its size is counted right. -/
def step (host : ByteOrder) (station : Station κ) : Action κ → Option (Station κ)
  | .inject capsule =>
    (station.push (.pushBlocking capsule)).map fun station =>
      { station with injected := station.injected ++ [capsule] }
  | .port call => some { station with node := station.node.apply (.port call) }
  | .taken applicationQueue =>
    match (station.node.applicationQueues applicationQueue).m_que with
    | [] => none
    | capsule :: _ => some { station with
        node := station.node.apply (.taken applicationQueue)
        taken := station.taken ++ [(applicationQueue, capsule)] }
  | .connected index data =>
    some { station with node := station.node.apply (.line index (.connected data)) }
  | .disconnected index =>
    some { station with node := station.node.apply (.line index .disconnected) }
  | .transmitted index =>
    match station.node.outputQueue index with
    | [] => none
    | capsule :: _ =>
      if Fits capsule then
        some { station with
          node := station.node.apply (.line index .transmitted)
          wires := Function.update station.wires index (station.wires index ++ [capsule]) }
      else none
  | .lost index place =>
    some { station with
      wires := Function.update station.wires index ((station.wires index).eraseIdx place) }
  | .popped =>
    if station.node.running && station.routing.isNone then
      match CProducerConsumer.Call.pop.loop false station.m_inputQueue with
      | .returns _ q (some capsule) => { station with m_inputQueue := q }.route host capsule
      | _ => none
    else none
  | .looked => station.routing.map fun (capsule, index) => station.look capsule index

/-- All that a step can do. -/
inductive Happens (host : ByteOrder) (station : Station κ) : Action κ → Station κ → Prop
  | inject (capsule : CCapsule) (q : CProducerConsumer CCapsule)
      (hque : q.m_que = station.m_inputQueue.m_que ++ [capsule]) :
      Happens host station (.inject capsule)
        { station with m_inputQueue := q, injected := station.injected ++ [capsule] }
  | port (call : CPortmap.Call κ) :
      Happens host station (.port call) { station with node := station.node.apply (.port call) }
  | taken (applicationQueue : κ) (capsule : CCapsule) (rest : List CCapsule)
      (hque : (station.node.applicationQueues applicationQueue).m_que = capsule :: rest) :
      Happens host station (.taken applicationQueue) { station with
        node := station.node.apply (.taken applicationQueue)
        taken := station.taken ++ [(applicationQueue, capsule)] }
  | connected (index : ℕ) (data : Bytes) :
      Happens host station (.connected index data)
        { station with node := station.node.apply (.line index (.connected data)) }
  | disconnected (index : ℕ) :
      Happens host station (.disconnected index)
        { station with node := station.node.apply (.line index .disconnected) }
  | transmitted (index : ℕ) (capsule : CCapsule) (rest : List CCapsule)
      (hque : station.node.outputQueue index = capsule :: rest) :
      Happens host station (.transmitted index) { station with
        node := station.node.apply (.line index .transmitted)
        wires := Function.update station.wires index (station.wires index ++ [capsule]) }
  | lost (index place : ℕ) :
      Happens host station (.lost index place) { station with
        wires := Function.update station.wires index ((station.wires index).eraseIdx place) }
  | own (capsule : CCapsule) (q : CProducerConsumer CCapsule) (handled : CNode.Handled κ)
      (hque : station.m_inputQueue.m_que = capsule :: q.m_que)
      (hown : station.node.destinationReached capsule = true)
      (hhandle : station.node.handle host capsule (fun _ => false) (fun _ => []) = some handled)
      (hidle : station.routing = none) (hrunning : station.node.running = true) :
      Happens host station .popped { station with
        node := handled.node
        m_inputQueue := q
        delivered := station.delivered ++
          ((station.node.recipient host capsule).toList.map fun dsque => (dsque, capsule)) }
  | other (capsule : CCapsule) (q : CProducerConsumer CCapsule)
      (hque : station.m_inputQueue.m_que = capsule :: q.m_que)
      (hother : station.node.destinationReached capsule = false)
      (hidle : station.routing = none) (hrunning : station.node.running = true) :
      Happens host station .popped
        { station with m_inputQueue := q, routing := some (capsule, 0) }
  | looked (capsule : CCapsule) (index : ℕ) (line : Line)
      (hrouting : station.routing = some (capsule, index))
      (hline : station.node.m_interfaces[index]? = some line) :
      Happens host station .looked { station with
        node := { station.node with
          m_interfaces := station.node.m_interfaces.set index (line.forward capsule false).2 }
        routing := some (capsule, index + 1) }
  | finished (capsule : CCapsule) (index : ℕ)
      (hrouting : station.routing = some (capsule, index))
      (hnone : station.node.m_interfaces[index]? = none) :
      Happens host station .looked { station with routing := none }

/-- Every step is one of the things that happen. -/
theorem happens_of_step {host : ByteOrder} {station station' : Station κ} {action : Action κ}
    (h : station.step host action = some station') : Happens host station action station' := by
  cases action with
  | inject capsule =>
    obtain ⟨pushed, hpush, rfl⟩ := Option.map_eq_some_iff.mp h
    obtain ⟨code, q, out, hloop, rfl⟩ := push_eq_some hpush
    exact .inject capsule q (CProducerConsumer.que_of_pushLoop hloop)
  | port call =>
    obtain rfl := Option.some.inj h
    exact .port call
  | taken applicationQueue =>
    simp only [step] at h
    split at h
    · cases h
    · obtain rfl := Option.some.inj h
      exact .taken applicationQueue _ _ ‹_›
  | connected index data =>
    obtain rfl := Option.some.inj h
    exact .connected index data
  | disconnected index =>
    obtain rfl := Option.some.inj h
    exact .disconnected index
  | transmitted index =>
    simp only [step] at h
    split at h
    · cases h
    · split_ifs at h
      obtain rfl := Option.some.inj h
      exact .transmitted index _ _ ‹_›
  | lost index place =>
    obtain rfl := Option.some.inj h
    exact .lost index place
  | popped =>
    simp only [step, Option.ite_none_right_eq_some, Bool.and_eq_true, Option.isNone_iff_eq_none]
      at h
    obtain ⟨⟨hrunning, hidle⟩, h⟩ := h
    split at h
    · next code q capsule hpop =>
      have hque := CProducerConsumer.que_of_popLoop hpop
      unfold route at h
      cases hreached : station.node.destinationReached capsule with
      | true =>
        simp only [hreached, if_true] at h
        obtain ⟨handled, hhandle, rfl⟩ := Option.map_eq_some_iff.mp h
        exact .own capsule q handled hque hreached hhandle hidle hrunning
      | false =>
        simp only [hreached, Bool.false_eq_true, if_false] at h
        obtain rfl := Option.some.inj h
        exact .other capsule q hque hreached hidle hrunning
    · cases h
  | looked =>
    obtain ⟨⟨capsule, index⟩, hrouting, rfl⟩ := Option.map_eq_some_iff.mp h
    dsimp only
    unfold look
    cases hline : station.node.m_interfaces[index]? with
    | none => exact .finished capsule index hrouting hline
    | some line => exact .looked capsule index line hrouting hline

/-- What was put in stays on record. -/
theorem Happens.injected_subset {host : ByteOrder} {station station' : Station κ}
    {action : Action κ} (h : Happens host station action station') :
    station.injected ⊆ station'.injected := by
  cases h with
  | inject capsule q hque => exact List.subset_append_left _ _
  | _ => exact List.Subset.refl _

/-- Nothing else puts capsules in. -/
theorem Happens.injected_eq {host : ByteOrder} {station station' : Station κ}
    {action : Action κ} (h : Happens host station action station')
    (hnot : ∀ capsule, action ≠ .inject capsule) : station'.injected = station.injected := by
  cases h with
  | inject capsule q hque => exact absurd rfl (hnot capsule)
  | _ => rfl

/-- What a log says about one application queue. -/
def ofQueue (applicationQueue : κ) (log : List (κ × CCapsule)) : List CCapsule :=
  log.filterMap fun entry => if entry.1 = applicationQueue then some entry.2 else none

/-- The capsules of one queue in two logs. -/
theorem ofQueue_append (applicationQueue : κ) (first second : List (κ × CCapsule)) :
    ofQueue applicationQueue (first ++ second) =
      ofQueue applicationQueue first ++ ofQueue applicationQueue second := List.filterMap_append

/-- The capsules of one queue are a subsequence of all. -/
theorem ofQueue_sublist (applicationQueue : κ) (log : List (κ × CCapsule)) :
    (ofQueue applicationQueue log).Sublist (log.map Prod.snd) := by
  induction log with
  | nil => exact .slnil
  | cons entry log ih =>
    unfold ofQueue at ih ⊢
    rw [List.filterMap_cons, List.map_cons]
    by_cases heq : entry.1 = applicationQueue
    · simpa [heq] using ih
    · simpa [heq] using ih.cons entry.2

/-- A capsule belongs to its own queue only. -/
theorem ofQueue_singleton (applicationQueue dsque : κ) (capsule : CCapsule) :
    ofQueue applicationQueue [(dsque, capsule)] =
      if dsque = applicationQueue then [capsule] else [] := by
  unfold ofQueue
  split_ifs with heq
  · simp [heq]
  · simp [heq]

/-- A capsule belongs to the queue of its recipient, if it has one. -/
theorem ofQueue_recipient (applicationQueue : κ) (recipient : Option κ) (capsule : CCapsule) :
    ofQueue applicationQueue (recipient.toList.map fun dsque => (dsque, capsule)) =
      if recipient = some applicationQueue then [capsule] else [] := by
  cases recipient with
  | none => rfl
  | some dsque => simpa using ofQueue_singleton applicationQueue dsque capsule

/-- An application queue holds what was put on it and not yet taken. -/
def Settled (station : Station κ) : Prop :=
  ∀ applicationQueue, ofQueue applicationQueue station.delivered =
    ofQueue applicationQueue station.taken ++
      (station.node.applicationQueues applicationQueue).m_que

/-- What was taken was put on the application queue before. -/
theorem Settled.taken_sublist {station : Station κ} (h : station.Settled) (applicationQueue : κ) :
    (ofQueue applicationQueue station.taken).Sublist (station.delivered.map Prod.snd) := by
  refine List.Sublist.trans ?_ (ofQueue_sublist applicationQueue station.delivered)
  rw [h applicationQueue]
  exact List.sublist_append_left _ _

/-- Whatever happens, what was delivered is taken or still in the queue. -/
theorem Settled.happens {host : ByteOrder} {station station' : Station κ} {action : Action κ}
    (h : station.Settled) (hhappens : Happens host station action station') :
    station'.Settled := by
  intro applicationQueue
  have hbefore := h applicationQueue
  cases hhappens with
  | inject capsule q hque => exact hbefore
  | port call => exact hbefore
  | taken dsque capsule rest hque =>
    simp only [CNode.apply, CNode.Event.onQueues, ofQueue_append, ofQueue_singleton]
    rw [hbefore, List.append_assoc]
    by_cases heq : applicationQueue = dsque
    · subst heq
      rw [if_pos rfl, Function.update_self, hque]
      rfl
    · rw [if_neg (Ne.symm heq), Function.update_of_ne heq, List.nil_append]
  | connected index data => exact hbefore
  | disconnected index => exact hbefore
  | transmitted index capsule rest hque => exact hbefore
  | lost index place => exact hbefore
  | own capsule q handled hque hown hhandle hidle hrunning =>
    simp only [ofQueue_append, ofQueue_recipient]
    rw [CNode.que_of_handle hown hhandle, hbefore, List.append_assoc]
  | other capsule q hque hother hidle hrunning => exact hbefore
  | looked capsule index line hrouting hline => exact hbefore
  | finished capsule index hrouting hnone => exact hbefore

end Station

namespace CNode

/-- The second pass at one interface. -/
def lookAt (capsule : CCapsule) (terminated : Bool) (index : ℕ) (node : CNode κ) : CNode κ :=
  match node.m_interfaces[index]? with
  | none => node
  | some line =>
    { node with m_interfaces := node.m_interfaces.set index (line.forward capsule terminated).2 }

/-- To look at an interface neither adds nor removes one. -/
theorem length_lookAt (capsule : CCapsule) (terminated : Bool) (index : ℕ) (node : CNode κ) :
    (node.lookAt capsule terminated index).m_interfaces.length = node.m_interfaces.length := by
  unfold lookAt
  split
  · rfl
  · exact List.length_set

variable [DecidableEq κ] (capsule : CCapsule) (terminated : ℕ → Bool)

/-- The router looks at one interface and goes on with the next. -/
theorem forward_cons (before : ℕ → List (Event κ)) (rest : ℕ) {index : ℕ} {node : CNode κ}
    (hindex : index < node.m_interfaces.length) :
    (forward capsule terminated before index (rest + 1) node).2 =
      (forward capsule terminated before (index + 1) rest
        (((before index).foldl apply node).lookAt capsule (terminated index) index)).2 := by
  rw [← foldl_length (before index) node] at hindex
  rw [forward]
  unfold lookAt
  dsimp only
  rw [List.getElem?_eq_getElem hindex]

/-- A longer pass looks at one interface more. -/
theorem forward_succ (before : ℕ → List (Event κ)) {index rest : ℕ} {node : CNode κ}
    (hrest : index + rest < node.m_interfaces.length) :
    (forward capsule terminated before index (rest + 1) node).2 =
      ((before (index + rest)).foldl apply
        (forward capsule terminated before index rest node).2).lookAt capsule
          (terminated (index + rest)) (index + rest) := by
  induction rest generalizing index node with
  | zero => exact forward_cons capsule terminated before 0 (by omega)
  | succ rest ih =>
    have hlength : (((before index).foldl apply node).lookAt capsule (terminated index)
        index).m_interfaces.length = node.m_interfaces.length := by
      rw [length_lookAt, foldl_length]
    have hnext : index + 1 + rest = index + (rest + 1) := by omega
    rw [forward_cons capsule terminated before (rest + 1) (by omega)]
    refine (ih (by omega)).trans ?_
    rw [hnext, forward_cons capsule terminated before rest (by omega)]

/-- What happens after the pass does not matter for it. -/
theorem forward_congr {before before' : ℕ → List (Event κ)} {index rest : ℕ}
    (h : ∀ k, index ≤ k → k < index + rest → before k = before' k) (node : CNode κ) :
    forward capsule terminated before index rest node =
      forward capsule terminated before' index rest node := by
  induction rest generalizing index node with
  | zero => rfl
  | succ rest ih =>
    have hrest : ∀ k, index + 1 ≤ k → k < index + 1 + rest → before k = before' k := by
      intro k hk hlt
      exact h k (by omega) (by omega)
    rw [forward, forward, h index (by omega) (by omega)]
    dsimp only
    split
    · rfl
    · rw [ih hrest]

/-- Forwarding neither adds nor removes interfaces. -/
theorem length_forward (before : ℕ → List (Event κ)) (index rest : ℕ) (node : CNode κ) :
    (forward capsule terminated before index rest node).2.m_interfaces.length =
      node.m_interfaces.length := by
  induction rest generalizing index node with
  | zero => rfl
  | succ rest ih =>
    rw [forward]
    dsimp only
    split
    · exact foldl_length (before index) node
    · rw [ih, List.length_set, foldl_length]

/-- Events of other threads are a run of the node. -/
theorem run_events (host : ByteOrder) (events : List (Event κ)) (node : CNode κ) :
    Execution.run (step host) node (events.map .event) = some (events.foldl apply node) := by
  induction events generalizing node with
  | nil => rfl
  | cons event events ih => exact ih (node.apply event)

end CNode

namespace Station

variable [DecidableEq κ]

/-- The pass of the router is at an interface: the node is what the pass has made of an
earlier node, with what has happened since. -/
structure Passing (current node : CNode κ) (capsule : CCapsule) (index : ℕ)
    (before : ℕ → List (CNode.Event κ)) : Prop where
  running : node.running = true
  other : node.destinationReached capsule = false
  within : index ≤ node.m_interfaces.length
  now : current = (before index).foldl CNode.apply
    (CNode.forward capsule (fun _ => false) before 0 index node).2

section

variable {current node : CNode κ} {capsule : CCapsule} {index : ℕ}
  {before : ℕ → List (CNode.Event κ)}

/-- What happens on the node besides the router. -/
theorem Passing.event (h : Passing current node capsule index before) (event : CNode.Event κ) :
    Passing (current.apply event) node capsule index
      (Function.update before index (before index ++ [event])) := by
  refine ⟨h.running, h.other, h.within, ?_⟩
  have hsame : CNode.forward capsule (fun _ => false)
      (Function.update before index (before index ++ [event])) 0 index node =
        CNode.forward capsule (fun _ => false) before 0 index node := by
    apply CNode.forward_congr
    intro k _ hk
    exact Function.update_of_ne (by omega) _ _
  rw [h.now, Function.update_self, List.foldl_append, hsame]
  rfl

/-- While a capsule passes no interface is added or removed. -/
theorem Passing.length (h : Passing current node capsule index before) :
    current.m_interfaces.length = node.m_interfaces.length := by
  rw [h.now, CNode.foldl_length, CNode.length_forward]

/-- The router looks at one interface more. -/
theorem Passing.looked (h : Passing current node capsule index before) {line : Line}
    (hline : current.m_interfaces[index]? = some line) :
    Passing (current.lookAt capsule false index) node capsule (index + 1)
      (Function.update before (index + 1) []) := by
  have hindex : index < node.m_interfaces.length := by
    obtain ⟨hlt, -⟩ := List.getElem?_eq_some_iff.mp hline
    have hlength := h.length
    omega
  refine ⟨h.running, h.other, hindex, ?_⟩
  have hsame : CNode.forward capsule (fun _ => false)
      (Function.update before (index + 1) []) 0 (index + 1) node =
        CNode.forward capsule (fun _ => false) before 0 (index + 1) node := by
    apply CNode.forward_congr
    intro k _ hk
    exact Function.update_of_ne (by omega) _ _
  rw [h.now, Function.update_self, hsame, List.foldl_nil,
    CNode.forward_succ capsule (fun _ => false) before (by omega), Nat.zero_add]

/-- The end of the pass is that of the larger step. What has happened since comes after it. -/
theorem Passing.finished (h : Passing current node capsule index before)
    (hnone : current.m_interfaces[index]? = none) (host : ByteOrder) :
    Execution.run (CNode.step host) node
      (.capsule capsule (fun _ => false) before :: (before index).map .event) =
        some current := by
  have hend : index = node.m_interfaces.length := by
    have hlength := h.length
    have hpast := List.getElem?_eq_none_iff.mp hnone
    have hwithin := h.within
    omega
  rw [Execution.run_cons_eq_some]
  refine ⟨(CNode.forward capsule (fun _ => false) before 0 index node).2, ?_, ?_⟩
  · unfold CNode.step CNode.handle
    simp only [h.running, h.other, if_true, Bool.false_eq_true, if_false, Option.map_some, hend]
  · rw [h.now]
    exact CNode.run_events host (before index) _

end

/-- The node is that of the larger steps, or it is inside of one. -/
def Follows (station : Station κ) (node : CNode κ) : Prop :=
  match station.routing with
  | none => station.node = node
  | some (capsule, index) => ∃ before, Passing station.node node capsule index before

/-- An event of the node is one of the larger system, or it happens inside of a step. -/
theorem Follows.event {station station' : Station κ} {node : CNode κ} (h : station.Follows node)
    (host : ByteOrder) (event : CNode.Event κ)
    (hnode : station'.node = station.node.apply event)
    (hrouting : station'.routing = station.routing) :
    ∃ actions node', Execution.run (CNode.step host) node actions = some node' ∧
      station'.Follows node' := by
  unfold Follows at h ⊢
  rw [hrouting]
  cases hphase : station.routing with
  | none =>
    rw [hphase] at h
    refine ⟨[.event event], node.apply event, rfl, ?_⟩
    rw [hnode, h]
  | some entry =>
    rw [hphase] at h
    obtain ⟨before, hpassing⟩ := h
    have hlater := hpassing.event event
    rw [← hnode] at hlater
    exact ⟨[], node, rfl, _, hlater⟩

/-- Each step of a station is matched by steps of its node alone, in which the router passes a
capsule on in one go. -/
theorem Follows.happens {host : ByteOrder} {station station' : Station κ} {action : Action κ}
    {node : CNode κ} (h : station.Follows node)
    (hhappens : Happens host station action station') :
    ∃ actions node', Execution.run (CNode.step host) node actions = some node' ∧
      station'.Follows node' := by
  cases hhappens with
  | inject capsule q hque =>
    unfold Follows at h ⊢
    exact ⟨[], node, rfl, h⟩
  | lost index place =>
    unfold Follows at h ⊢
    exact ⟨[], node, rfl, h⟩
  | port call => exact h.event host (.port call) rfl rfl
  | taken dsque capsule rest hque => exact h.event host (.taken dsque) rfl rfl
  | connected index data => exact h.event host (.line index (.connected data)) rfl rfl
  | disconnected index => exact h.event host (.line index .disconnected) rfl rfl
  | transmitted index capsule rest hque =>
    exact h.event host (.line index .transmitted) rfl rfl
  | own capsule q handled hque hown hhandle hidle hrunning =>
    unfold Follows at h ⊢
    rw [hidle] at h ⊢
    refine ⟨[.capsule capsule (fun _ => false) fun _ => []], handled.node, ?_, rfl⟩
    apply Execution.run_single
    have hnode : station.node = node := h
    simp only [CNode.step, ← hnode, hrunning, if_true, hhandle, Option.map_some]
  | other capsule q hque hother hidle hrunning =>
    unfold Follows at h ⊢
    rw [hidle] at h
    refine ⟨[], node, rfl, fun _ => [], ?_⟩
    rw [h] at hother hrunning
    exact ⟨hrunning, hother, Nat.zero_le _, h⟩
  | looked capsule index line hrouting hline =>
    unfold Follows at h ⊢
    rw [hrouting] at h
    obtain ⟨before, hpassing⟩ := h
    have hlooked := hpassing.looked hline
    unfold CNode.lookAt at hlooked
    rw [hline] at hlooked
    exact ⟨[], node, rfl, _, hlooked⟩
  | finished capsule index hrouting hnone =>
    unfold Follows at h ⊢
    rw [hrouting] at h
    obtain ⟨before, hpassing⟩ := h
    exact ⟨_, station.node, hpassing.finished hnone host, rfl⟩

/-- At first the station follows its node. -/
theorem follows_start (interfaces : List (SanAddress × ℕ)) (inputQueueMaxSize : ℕ)
    (applicationQueueSize : κ → ℕ) :
    (start interfaces inputQueueMaxSize applicationQueueSize).Follows
      (start interfaces inputQueueMaxSize applicationQueueSize).node := by
  unfold Follows
  rfl

/-- Every run of a station is a run of its node in the larger steps, except that the router may
still be in its last step. -/
theorem follows_of_run {host : ByteOrder} {interfaces : List (SanAddress × ℕ)}
    {inputQueueMaxSize : ℕ} {applicationQueueSize : κ → ℕ} {actions : List (Action κ)}
    {station : Station κ}
    (hrun : Execution.run (step host) (start interfaces inputQueueMaxSize applicationQueueSize)
      actions = some station) :
    ∃ actions' node, Execution.run (CNode.step host)
        (start interfaces inputQueueMaxSize applicationQueueSize).node actions' = some node ∧
      station.Follows node :=
  Execution.run_refines Follows (fun h hstep => Follows.happens h (happens_of_step hstep))
    (follows_start interfaces inputQueueMaxSize applicationQueueSize) hrun

/-- A node with two interfaces. -/
def sampleStation : Station Unit :=
  start [(FixedBytes.replicate 32 7, 1), (FixedBytes.replicate 32 6, 1)] 1 fun _ => 1

/-- A peer has gone by the time that the router comes to its interface. -/
theorem follows_of_run_disconnected :
    ∃ station : Station Unit, Execution.run (step .littleEndian) sampleStation
        [.connected 1 (firstMessage (FixedBytes.replicate 32 8)),
          .inject (CNode.sampleCapsule (FixedBytes.replicate 32 8)), .popped, .looked,
          .disconnected 1, .looked] = some station ∧
      ∃ actions node, Execution.run (CNode.step .littleEndian) sampleStation.node actions =
        some node ∧ station.Follows node := by
  have hruns : (Execution.run (step .littleEndian) sampleStation
      [.connected 1 (firstMessage (FixedBytes.replicate 32 8)),
        .inject (CNode.sampleCapsule (FixedBytes.replicate 32 8)), .popped, .looked,
        .disconnected 1, .looked]).isSome = true := by decide +kernel
  obtain ⟨station, hrun⟩ := Option.isSome_iff_exists.mp hruns
  exact ⟨station, hrun, follows_of_run hrun⟩

end Station

end Node

end San2
