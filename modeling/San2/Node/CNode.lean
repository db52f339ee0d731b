import San2.Interfaces.CTcpInterface
import San2.Library.Execution
import San2.Node.CPortmap

/-!
# The router of a node

The loop of `CNode::run` takes a capsule from the input queue. A capsule to an address
of the node itself goes to the application that owns its destination port; any other
one goes to the peers that have its destination address. Peers come and go between any
two interfaces that the router looks at.
-/

namespace San2.Node

open Utils Network Interfaces

/-- The interfaces, the ports, and the queues of the applications that own them. -/
structure CNode (κ : Type) where
  m_interfaces : List Line
  m_portmap : CPortmap κ
  applicationQueues : κ → CProducerConsumer CCapsule
  /-- The loop has not been left. -/
  running : Bool

namespace CNode

variable {κ : Type}

/-- What happens besides the router. -/
inductive Event (κ : Type)
  | line (index : ℕ) (event : LineEvent)
  | port (call : CPortmap.Call κ)
  /-- An application takes a capsule from its queue. -/
  | taken (applicationQueue : κ)

/-- The effect of an event on the interface with an index. -/
def Event.onLine (index : ℕ) (event : Event κ) (line : Line) : Line :=
  match event with
  | .line other lineEvent => if other = index then line.apply lineEvent else line
  | .port _ => line
  | .taken _ => line

/-- The interface with an index, after events. -/
def lineAfter (events : List (Event κ)) (index : ℕ) (line : Line) : Line :=
  events.foldl (fun line event => event.onLine index line) line

/-- An interface after some events and then others. -/
theorem lineAfter_append (first second : List (Event κ)) (index : ℕ) (line : Line) :
    lineAfter (first ++ second) index line = lineAfter second index (lineAfter first index line) :=
  List.foldl_append

/-- An event leaves an interface with the address of its peer. -/
theorem knows_onLine {line : Line} (h : line.Knows) (event : Event κ) (index : ℕ) :
    (event.onLine index line).Knows := by
  cases event with
  | line other lineEvent =>
    unfold Event.onLine
    dsimp only
    split_ifs
    · exact h.apply lineEvent
    · exact h
  | port call => exact h
  | taken applicationQueue => exact h

/-- Events leave an interface with the address of its peer. -/
theorem knows_lineAfter {line : Line} (h : line.Knows) (events : List (Event κ)) (index : ℕ) :
    (lineAfter events index line).Knows := by
  induction events generalizing line with
  | nil => exact h
  | cons event events ih => exact ih (knows_onLine h event index)

variable [DecidableEq κ]

/-- What an event does to the port map. -/
def Event.onPortmap (event : Event κ) (portmap : CPortmap κ) : CPortmap κ :=
  match event with
  | .line _ _ => portmap
  | .port call => portmap.apply call
  | .taken _ => portmap

/-- What an event does to the queues of the applications. -/
def Event.onQueues (event : Event κ) (queues : κ → CProducerConsumer CCapsule) :
    κ → CProducerConsumer CCapsule :=
  match event with
  | .line _ _ => queues
  | .port _ => queues
  | .taken applicationQueue =>
    let q := queues applicationQueue
    Function.update queues applicationQueue { q with m_que := q.m_que.tail }

/-- The node after an event of one of the other threads. -/
def apply (node : CNode κ) (event : Event κ) : CNode κ where
  m_interfaces := node.m_interfaces.mapIdx fun index line => event.onLine index line
  m_portmap := event.onPortmap node.m_portmap
  applicationQueues := event.onQueues node.applicationQueues
  running := node.running

/-- The message that is logged, ended by a zero byte. The index of its last byte is
computed in a `size_t`; `none` is a read out of bounds. -/
def logMessage (data : Bytes) : Option Bytes :=
  match data[(UInt64.ofNat data.length - 1).toNat]? with
  | none => none
  | some last => some (if last ≠ 0 then data ++ [0] else data)

/-- What the router does with a capsule: the node afterwards, and what the router has
found and left at the interfaces of the second pass. -/
structure Handled (κ : Type) where
  node : CNode κ
  looks : List Line.Look

/-- The second pass over the interfaces, from one index on. The events happen before the
router looks at the interface with their index. -/
def forward (capsule : CCapsule) (terminated : ℕ → Bool) (before : ℕ → List (Event κ)) :
    ℕ → ℕ → CNode κ → List Line.Look × CNode κ
  | _, 0, node => ([], node)
  | index, rest + 1, node =>
    let node := (before index).foldl apply node
    match node.m_interfaces[index]? with
    | none => ([], node)
    | some line =>
      let (look, line) := line.forward capsule (terminated index)
      let (looks, node) := forward capsule terminated before (index + 1) rest
        { node with m_interfaces := node.m_interfaces.set index line }
      (look :: looks, node)

/-- The capsule is for this node. -/
def destinationReached (node : CNode κ) (capsule : CCapsule) : Bool :=
  node.m_interfaces.any fun line => capsule.dstAddress == line.iface.getInterfaceAddress

/-- One iteration of `CNode::run` on a capsule; `none` is a read out of bounds. The
termination flag is that of the thread of the router at each attempt to push. -/
def handle (host : ByteOrder) (capsule : CCapsule) (terminated : ℕ → Bool)
    (before : ℕ → List (Event κ)) (node : CNode κ) : Option (Handled κ) :=
  if node.destinationReached capsule then
    let (ok, dstport, _) := capsule.getPortsDS host 0 0
    if ok then
      match node.m_portmap.getPortQueue dstport with
      | none => some ⟨node, []⟩
      | some dsque =>
        let (code, q) := (node.applicationQueues dsque).try_pushNow capsule (terminated 0)
        some ⟨{ node with
            applicationQueues := Function.update node.applicationQueues dsque q
            running := code != -1 }, []⟩
    else if capsule.appId = sanTestMessageApplicationId then
      match logMessage capsule.data with
      | none => none
      | some _ => some ⟨node, []⟩
    else some ⟨node, []⟩
  else
    let (looks, node) := node.forward capsule terminated before 0 node.m_interfaces.length
    some ⟨node, looks⟩

/-- An event of another thread, or a capsule that the router takes and handles. -/
inductive Action (κ : Type)
  | event (event : Event κ)
  /-- The router takes a capsule from the input queue. -/
  | capsule (capsule : CCapsule) (terminated : ℕ → Bool) (before : ℕ → List (Event κ))

/-- The node after an action; none if the router is not running or reads out of bounds. -/
def step (host : ByteOrder) (node : CNode κ) : Action κ → Option (CNode κ)
  | .event event => some (node.apply event)
  | .capsule capsule terminated before =>
    if node.running then (node.handle host capsule terminated before).map Handled.node else none

/-- A node whose interfaces have no peers yet. -/
def start (interfaces : List (SanAddress × ℕ)) (portmap : CPortmap κ)
    (applicationQueues : κ → CProducerConsumer CCapsule) : CNode κ where
  m_interfaces := interfaces.map fun entry => .create entry.1 entry.2
  m_portmap := portmap
  applicationQueues := applicationQueues
  running := true

/-- Only empty data is not printed. -/
theorem logMessage_eq_none_iff (data : Bytes) : logMessage data = none ↔ data = [] := by
  unfold logMessage
  constructor
  · intro h
    cases hlast : data[(UInt64.ofNat data.length - 1).toNat]? with
    | some last => simp [hlast] at h
    | none =>
      rw [List.getElem?_eq_none_iff] at hlast
      by_contra hne
      have hpos := List.length_pos_iff.mpr hne
      have hsub : (UInt64.ofNat data.length - 1).toNat =
          (data.length % 2 ^ 64 + (2 ^ 64 - 1)) % 2 ^ 64 := by
        rw [UInt64.toNat_sub, UInt64.toNat_ofNat']
        have hone : (1 : UInt64).toNat = 1 := rfl
        rw [hone, Nat.add_comm]
      omega
  · rintro rfl
    rfl

/-- The interface that the router looks at under an index, in the state in which it is by
then. What the router has done with other interfaces does not matter for it. -/
def seen (before : ℕ → List (Event κ)) (node : CNode κ) (index : ℕ) : Option Line :=
  node.m_interfaces[index]?.map (lineAfter ((List.range (index + 1)).flatMap before) index)

/-- Events change each interface by itself. -/
theorem foldl_interfaces (events : List (Event κ)) (node : CNode κ) (index : ℕ) :
    (events.foldl apply node).m_interfaces[index]? =
      node.m_interfaces[index]?.map (lineAfter events index) := by
  induction events generalizing node with
  | nil =>
    have hnone : lineAfter ([] : List (Event κ)) index = id := rfl
    rw [hnone, Option.map_id]
    rfl
  | cons event events ih =>
    rw [List.foldl_cons, ih, apply, List.getElem?_mapIdx, Option.map_map]
    rfl

/-- Events neither add nor remove interfaces. -/
theorem foldl_length (events : List (Event κ)) (node : CNode κ) :
    (events.foldl apply node).m_interfaces.length = node.m_interfaces.length := by
  induction events generalizing node with
  | nil => rfl
  | cons event events ih => rw [List.foldl_cons, ih, apply, List.length_mapIdx]

/-- Events change the application queues one after the other. -/
theorem foldl_applicationQueues (events : List (Event κ)) (node : CNode κ) :
    (events.foldl apply node).applicationQueues =
      events.foldl (fun queues event => event.onQueues queues) node.applicationQueues := by
  induction events generalizing node with
  | nil => rfl
  | cons event events ih => rw [List.foldl_cons, List.foldl_cons, ih, apply]

/-- Each interface knows its peer. -/
def Knows (node : CNode κ) : Prop := ∀ line ∈ node.m_interfaces, line.Knows

/-- Every event leaves the interfaces with the addresses of their peers. -/
theorem Knows.apply {node : CNode κ} (h : node.Knows) (event : Event κ) :
    (node.apply event).Knows := by
  intro line hline
  obtain ⟨index, hindex, rfl⟩ := List.mem_mapIdx.mp hline
  exact knows_onLine (h _ (List.getElem_mem hindex)) event index

/-- Events leave the interfaces with the addresses of their peers. -/
theorem Knows.foldl {node : CNode κ} (h : node.Knows) (events : List (Event κ)) :
    (events.foldl CNode.apply node).Knows := by
  induction events generalizing node with
  | nil => exact h
  | cons event events ih => exact ih (h.apply event)

/-- Forwarding leaves the interfaces with the addresses of their peers. -/
theorem Knows.forward {node : CNode κ} (h : node.Knows) (capsule : CCapsule)
    (terminated : ℕ → Bool) (before : ℕ → List (Event κ)) (index rest : ℕ) :
    (CNode.forward capsule terminated before index rest node).2.Knows := by
  induction rest generalizing index node with
  | zero => exact h
  | succ rest ih =>
    have hfold := h.foldl (before index)
    rw [CNode.forward]
    dsimp only
    cases hline : ((before index).foldl CNode.apply node).m_interfaces[index]? with
    | none => exact hfold
    | some line =>
      refine ih (fun other hother => ?_) (index + 1)
      rcases List.mem_or_eq_of_mem_set hother with hother | rfl
      · exact hfold other hother
      · obtain ⟨hpeer, haddr, -⟩ := line.forward_addresses capsule (terminated index)
        have hknows := hfold line (List.mem_of_getElem? hline)
        unfold Line.Knows at hknows ⊢
        rw [hpeer, haddr, hknows]

/-- The pass looks at every interface from its index on, in the state in which it is by
then. The induction is on the number of interfaces that are left. -/
theorem forward_looks (capsule : CCapsule) (terminated : ℕ → Bool)
    (before : ℕ → List (Event κ)) {index rest : ℕ} {node : CNode κ}
    (hlength : index + rest = node.m_interfaces.length) :
    (forward capsule terminated before index rest node).1.length = rest ∧
      ∀ k < rest, (forward capsule terminated before index rest node).1[k]? =
        node.m_interfaces[index + k]?.map fun line =>
          ((lineAfter ((List.range' index (k + 1)).flatMap before) (index + k) line).forward capsule
            (terminated (index + k))).1 := by
  induction rest generalizing index node with
  | zero => exact ⟨rfl, fun k hk => absurd hk (Nat.not_lt_zero k)⟩
  | succ rest ih =>
    have hfold := foldl_length (before index) node
    have hindex : index < ((before index).foldl apply node).m_interfaces.length := by omega
    rw [forward]
    dsimp only
    rw [List.getElem?_eq_getElem hindex]
    set node' := (before index).foldl apply node with hnode'
    set line := node'.m_interfaces[index] with hline
    have hset : ∀ line', index + 1 + rest =
        (CNode.mk (node'.m_interfaces.set index line') node'.m_portmap node'.applicationQueues
          node'.running).m_interfaces.length := by
      intro line'
      rw [List.length_set]
      omega
    obtain ⟨hcount, hlooks⟩ := ih (hset (line.forward capsule (terminated index)).2)
    refine ⟨by simpa using hcount, fun k hk => ?_⟩
    cases k with
    | zero =>
      have hseen := foldl_interfaces (before index) node index
      rw [← hnode', List.getElem?_eq_getElem hindex, ← hline] at hseen
      have hone : (List.range' index (0 + 1)).flatMap before = before index := by simp
      rw [List.getElem?_cons_zero, Nat.add_zero, hone]
      cases hentry : node.m_interfaces[index]? with
      | none => simp [hentry] at hseen
      | some line₀ =>
        rw [hentry, Option.map_some, Option.some.injEq] at hseen
        rw [Option.map_some, Nat.add_zero, ← hseen]
    | succ k =>
      have hother := hlooks k (by omega)
      have hne : index ≠ index + 1 + k := by omega
      have hnext : index + 1 + k = index + (k + 1) := by omega
      have hevents : (List.range' index (k + 1 + 1)).flatMap before =
          before index ++ (List.range' (index + 1) (k + 1)).flatMap before := by
        rw [List.range'_succ, List.flatMap_cons]
      rw [List.getElem?_cons_succ, hother]
      dsimp only
      rw [List.getElem?_set_ne hne, hnode', foldl_interfaces, Option.map_map, hnext, hevents]
      simp only [Function.comp_def, lineAfter_append]

/-- What the router finds and leaves at the interface with an index. -/
theorem handle_looks {host : ByteOrder} {capsule : CCapsule} {terminated : ℕ → Bool}
    {before : ℕ → List (Event κ)} {node : CNode κ} {handled : Handled κ}
    (hother : node.destinationReached capsule = false)
    (hhandle : node.handle host capsule terminated before = some handled) :
    handled.looks.length = node.m_interfaces.length ∧
      ∀ index, handled.looks[index]? = (node.seen before index).map fun line =>
        (line.forward capsule (terminated index)).1 := by
  rw [handle, hother] at hhandle
  obtain rfl := Option.some.inj hhandle
  obtain ⟨hlength, hlooks⟩ := forward_looks capsule terminated before
    (Nat.zero_add node.m_interfaces.length)
  refine ⟨hlength, fun index => ?_⟩
  by_cases hindex : index < node.m_interfaces.length
  · have hlook := hlooks index hindex
    rw [Nat.zero_add] at hlook
    rw [hlook, seen, Option.map_map, List.range_eq_range']
    rfl
  · have hnone : node.m_interfaces[index]? = none := List.getElem?_eq_none_iff.mpr (by omega)
    have hpast : (node.forward capsule terminated before 0 node.m_interfaces.length).1[index]? =
        none := List.getElem?_eq_none_iff.mpr (by omega)
    rw [seen, hnone]
    exact hpast

/-- The node delivers the capsule to the application queue: its ports parse, its
destination port is registered for the queue, and the queue has room. -/
def Delivers (host : ByteOrder) (node : CNode κ) (capsule : CCapsule) (applicationQueue : κ) :
    Prop :=
  (capsule.getPortsDS host 0 0).1 = true ∧
    node.m_portmap.getPortQueue (capsule.getPortsDS host 0 0).2.1 = some applicationQueue ∧
    (node.applicationQueues applicationQueue).isFull = false

/-- What becomes of a capsule while the thread of the router runs. -/
structure Routed (host : ByteOrder) (capsule : CCapsule) (terminated : ℕ → Bool)
    (before : ℕ → List (Event κ)) (node : CNode κ) (handled : Handled κ) : Prop where
  /-- A capsule to the node itself is not forwarded. -/
  own : node.destinationReached capsule = true →
    handled.node.m_interfaces = node.m_interfaces
  delivered : node.destinationReached capsule = true → terminated 0 = false →
    ∀ applicationQueue, (Delivers host node capsule applicationQueue →
      (handled.node.applicationQueues applicationQueue).m_que =
        (node.applicationQueues applicationQueue).m_que ++ [capsule]) ∧
      (¬ Delivers host node capsule applicationQueue →
        handled.node.applicationQueues applicationQueue = node.applicationQueues applicationQueue)
  /-- Every other capsule is put on the output queues of the interfaces whose connected
  peers have announced its destination, when the router looks at them. -/
  forwarded : node.destinationReached capsule = false → ∀ index line,
    node.seen before index = some line → terminated index = false →
      ∃ look, handled.looks[index]? = some look ∧ line.Forwarded capsule look
  /-- The router itself does nothing to the application queues then. -/
  undelivered : node.destinationReached capsule = false → handled.node.applicationQueues =
    ((List.range node.m_interfaces.length).flatMap before).foldl
      (fun queues event => event.onQueues queues) node.applicationQueues

/-- Forwarding leaves the application queues to the events in between. -/
theorem forward_applicationQueues (capsule : CCapsule) (terminated : ℕ → Bool)
    (before : ℕ → List (Event κ)) {index rest : ℕ} {node : CNode κ}
    (hlength : index + rest = node.m_interfaces.length) :
    (forward capsule terminated before index rest node).2.applicationQueues =
      ((List.range' index rest).flatMap before).foldl
        (fun queues event => event.onQueues queues) node.applicationQueues := by
  induction rest generalizing index node with
  | zero => rfl
  | succ rest ih =>
    have hfold := foldl_length (before index) node
    have hindex : index < ((before index).foldl apply node).m_interfaces.length := by omega
    rw [forward]
    dsimp only
    rw [List.getElem?_eq_getElem hindex]
    dsimp only
    rw [ih (by rw [List.length_set]; omega), foldl_applicationQueues, List.range'_succ,
      List.flatMap_cons, List.foldl_append]

/-- A capsule without ports, or for a port that is not registered, is at most logged. -/
theorem handle_unregistered {host : ByteOrder} {capsule : CCapsule} {terminated : ℕ → Bool}
    {before : ℕ → List (Event κ)} {node : CNode κ} {handled : Handled κ}
    (hown : node.destinationReached capsule = true)
    (hnone : (capsule.getPortsDS host 0 0).1 = true →
      node.m_portmap.getPortQueue (capsule.getPortsDS host 0 0).2.1 = none)
    (hhandle : node.handle host capsule terminated before = some handled) :
    handled.node = node := by
  rw [handle, if_pos hown] at hhandle
  dsimp only at hhandle
  cases hports : (capsule.getPortsDS host 0 0).1 with
  | false =>
    simp only [hports, Bool.false_eq_true, if_false] at hhandle
    split_ifs at hhandle
    · split at hhandle
      · cases hhandle
      · obtain rfl := Option.some.inj hhandle
        rfl
    · obtain rfl := Option.some.inj hhandle
      rfl
  | true =>
    simp only [hports, if_true, hnone hports] at hhandle
    obtain rfl := Option.some.inj hhandle
    rfl

/-- A capsule for a registered port is pushed to its queue. -/
theorem handle_registered {host : ByteOrder} {capsule : CCapsule} {terminated : ℕ → Bool}
    {before : ℕ → List (Event κ)} {node : CNode κ} {handled : Handled κ} {dsque : κ}
    (hown : node.destinationReached capsule = true)
    (hports : (capsule.getPortsDS host 0 0).1 = true)
    (hdsque : node.m_portmap.getPortQueue (capsule.getPortsDS host 0 0).2.1 = some dsque)
    (hhandle : node.handle host capsule terminated before = some handled) :
    handled.node.m_interfaces = node.m_interfaces ∧
      handled.node.applicationQueues = Function.update node.applicationQueues dsque
        ((node.applicationQueues dsque).try_pushNow capsule (terminated 0)).2 := by
  rw [handle, if_pos hown] at hhandle
  dsimp only at hhandle
  simp only [hports, if_true, hdsque] at hhandle
  obtain rfl := Option.some.inj hhandle
  exact ⟨rfl, rfl⟩

/-- A capsule to the node itself goes to an application queue or nowhere, and to no interface. -/
theorem handle_own {host : ByteOrder} {capsule : CCapsule} {terminated : ℕ → Bool}
    {before : ℕ → List (Event κ)} {node : CNode κ} {handled : Handled κ}
    (hown : node.destinationReached capsule = true)
    (hhandle : node.handle host capsule terminated before = some handled) :
    handled.node.m_interfaces = node.m_interfaces ∧
      (terminated 0 = false → ∀ applicationQueue,
        (Delivers host node capsule applicationQueue →
          (handled.node.applicationQueues applicationQueue).m_que =
            (node.applicationQueues applicationQueue).m_que ++ [capsule]) ∧
        (¬ Delivers host node capsule applicationQueue →
          handled.node.applicationQueues applicationQueue =
            node.applicationQueues applicationQueue)) := by
  by_cases hregistered : (capsule.getPortsDS host 0 0).1 = true ∧
      ∃ dsque, node.m_portmap.getPortQueue (capsule.getPortsDS host 0 0).2.1 = some dsque
  · obtain ⟨hports, dsque, hdsque⟩ := hregistered
    obtain ⟨hinterfaces, hqueues⟩ := handle_registered hown hports hdsque hhandle
    refine ⟨hinterfaces, fun hrunning applicationQueue => ?_⟩
    rw [hqueues]
    by_cases hqueue : applicationQueue = dsque
    · subst hqueue
      rw [Function.update_self, CProducerConsumer.try_pushNow, hrunning]
      cases hfull : (node.applicationQueues applicationQueue).isFull with
      | true =>
        refine ⟨fun hdelivers => ?_, fun _ => rfl⟩
        cases hfull.symm.trans hdelivers.2.2
      | false => exact ⟨fun _ => rfl, fun hnot => absurd ⟨hports, hdsque, hfull⟩ hnot⟩
    · rw [Function.update_of_ne hqueue]
      refine ⟨fun hdelivers => ?_, fun _ => rfl⟩
      exact absurd (Option.some.inj (hdelivers.2.1.symm.trans hdsque)) hqueue
  · have hnode : handled.node = node := by
      refine handle_unregistered hown (fun hports => ?_) hhandle
      by_contra hsome
      exact hregistered ⟨hports, Option.ne_none_iff_exists'.mp hsome⟩
    rw [hnode]
    exact ⟨rfl, fun _ applicationQueue =>
      ⟨fun hdelivers => absurd ⟨hdelivers.1, _, hdelivers.2.1⟩ hregistered, fun _ => rfl⟩⟩

/-- To handle a capsule leaves the interfaces with the addresses of their peers. -/
theorem Knows.handle {node : CNode κ} (h : node.Knows) {host : ByteOrder} {capsule : CCapsule}
    {terminated : ℕ → Bool} {before : ℕ → List (Event κ)} {handled : Handled κ}
    (hhandle : node.handle host capsule terminated before = some handled) :
    handled.node.Knows := by
  cases hreached : node.destinationReached capsule with
  | true =>
    obtain ⟨hinterfaces, -⟩ := handle_own hreached hhandle
    unfold Knows
    rw [hinterfaces]
    exact h
  | false =>
    rw [CNode.handle, hreached] at hhandle
    obtain rfl := Option.some.inj hhandle
    exact h.forward capsule terminated before 0 node.m_interfaces.length

/-- In every state of a run each interface knows its peer. -/
theorem knows_of_run {host : ByteOrder} {interfaces : List (SanAddress × ℕ)}
    {portmap : CPortmap κ} {applicationQueues : κ → CProducerConsumer CCapsule}
    {actions : List (Action κ)} {node : CNode κ}
    (hrun : Execution.run (step host) (start interfaces portmap applicationQueues) actions =
      some node) : node.Knows := by
  refine Execution.run_preserves Knows ?_ ?_ hrun
  · intro node a node' h hstep
    cases a with
    | event event =>
      obtain rfl := Option.some.inj hstep
      exact h.apply event
    | capsule capsule terminated before =>
      simp only [step, Option.ite_none_right_eq_some, Option.map_eq_some_iff] at hstep
      obtain ⟨-, handled, hhandle, rfl⟩ := hstep
      exact h.handle hhandle
  · intro line hline
    obtain ⟨entry, -, rfl⟩ := List.mem_map.mp hline
    exact Line.knows_create entry.1 entry.2

/-- Where the router goes right: a capsule to the default address finds a peer, or no
room, at every interface. -/
def PeersConnected (capsule : CCapsule) (terminated : ℕ → Bool) (before : ℕ → List (Event κ))
    (node : CNode κ) : Prop :=
  node.destinationReached capsule = false → capsule.dstAddress = sanDefaultAddress →
    ∀ index line, node.seen before index = some line → terminated index = false →
      line.iface.m_outputQueue.isFull = false → line.peer ≠ none

/-- After any history of peers, ports and capsules, the router handles a capsule as it
should exactly where it does not take the default address of an interface without a peer
for the destination. -/
theorem routed_iff (host : ByteOrder) (interfaces : List (SanAddress × ℕ))
    (portmap : CPortmap κ) (applicationQueues : κ → CProducerConsumer CCapsule)
    (actions : List (Action κ)) {node : CNode κ}
    (hrun : Execution.run (step host) (start interfaces portmap applicationQueues) actions =
      some node)
    (capsule : CCapsule) (terminated : ℕ → Bool) (before : ℕ → List (Event κ))
    {handled : Handled κ} (hhandle : node.handle host capsule terminated before = some handled) :
    Routed host capsule terminated before node handled ↔
      PeersConnected capsule terminated before node := by
  have hknows := knows_of_run hrun
  have hseen : ∀ index line, node.seen before index = some line → line.Knows := by
    intro index line hline
    obtain ⟨line₀, hmem, rfl⟩ := Option.map_eq_some_iff.mp hline
    exact knows_lineAfter (hknows line₀ (List.mem_of_getElem? hmem)) _ index
  constructor
  · intro hrouted hother hdefault index line hline hrunning hroom
    obtain ⟨look, hlook, hforwarded⟩ := hrouted.forwarded hother index line hline hrunning
    rw [(handle_looks hother hhandle).2, hline, Option.map_some, hrunning] at hlook
    obtain rfl := Option.some.inj hlook
    exact ((hseen index line hline).forwarded_iff capsule).mp hforwarded hdefault hroom
  · intro hconnected
    refine ⟨fun hown => (handle_own hown hhandle).1, fun hown => (handle_own hown hhandle).2,
      fun hother index line hline hrunning => ?_, fun hother => ?_⟩
    · refine ⟨(line.forward capsule false).1, ?_, ?_⟩
      · rw [(handle_looks hother hhandle).2, hline, Option.map_some, hrunning]
      · apply ((hseen index line hline).forwarded_iff capsule).mpr
        intro hdefault hroom
        exact hconnected hother hdefault index line hline hrunning hroom
    · rw [handle, hother] at hhandle
      obtain rfl := Option.some.inj hhandle
      have hqueues := forward_applicationQueues capsule terminated before
        (Nat.zero_add node.m_interfaces.length)
      rw [List.range_eq_range']
      exact hqueues

/-- A node with one interface, whose output queue holds one capsule. -/
def sampleNode : CNode Unit :=
  start [(FixedBytes.replicate 32 7, 1)] .create fun _ => .create 1

/-- A capsule in cleared memory with the given destination. -/
def sampleCapsule (dstAddress : SanAddress) : CCapsule :=
  ⟨false, false, sanDefaultAddress, sanDefaultAddress, dstAddress, sanTestMessageApplicationId, 0,
    []⟩

/-- A peer connects, and a capsule to its address is put on the output queue. -/
theorem routed_iff_connected :
    ∃ node handled, Execution.run (step .littleEndian) sampleNode
        [.event (.line 0 (.connected (firstMessage (FixedBytes.replicate 32 8))))] = some node ∧
      node.handle .littleEndian (sampleCapsule (FixedBytes.replicate 32 8)) (fun _ => false)
        (fun _ => []) = some handled ∧
      (Routed .littleEndian (sampleCapsule (FixedBytes.replicate 32 8)) (fun _ => false)
          (fun _ => []) node handled ↔
        PeersConnected (sampleCapsule (FixedBytes.replicate 32 8)) (fun _ => false) (fun _ => [])
          node) :=
  ⟨_, _, rfl, rfl, routed_iff .littleEndian [(FixedBytes.replicate 32 7, 1)] .create
    (fun _ => .create 1) [.event (.line 0 (.connected (firstMessage (FixedBytes.replicate 32 8))))]
    rfl (sampleCapsule (FixedBytes.replicate 32 8)) (fun _ => false) (fun _ => []) rfl⟩

/-- No peer has ever connected, and yet a capsule to the default address is put on the
output queue. -/
theorem not_routed_default :
    ∃ handled, sampleNode.handle .littleEndian (sampleCapsule sanDefaultAddress)
        (fun _ => false) (fun _ => []) = some handled ∧
      handled.looks = [⟨none, false, [], [sampleCapsule sanDefaultAddress]⟩] ∧
      ¬ Routed .littleEndian (sampleCapsule sanDefaultAddress) (fun _ => false) (fun _ => [])
        sampleNode handled := by
  refine ⟨_, rfl, by decide, fun hrouted => ?_⟩
  obtain ⟨look, hlook, hforwarded⟩ := hrouted.forwarded (by decide) 0
    (.create (FixedBytes.replicate 32 7) 1) rfl rfl
  obtain rfl := Option.some.inj hlook
  revert hforwarded
  unfold Line.Forwarded
  decide

/-- What the iteration does with the data: it reads in bounds, unless the capsule is a
test message without data for the node itself. -/
theorem handle_eq_none_iff (host : ByteOrder) (capsule : CCapsule) (terminated : ℕ → Bool)
    (before : ℕ → List (Event κ)) (node : CNode κ) :
    node.handle host capsule terminated before = none ↔
      node.destinationReached capsule = true ∧ capsule.appId = sanTestMessageApplicationId ∧
        capsule.data = [] := by
  unfold handle
  cases hreached : node.destinationReached capsule with
  | false => simp
  | true =>
    cases hports : (capsule.getPortsDS host 0 0).1 with
    | true =>
      -- Ports stand in the first four bytes of the data.
      have hdata : capsule.data ≠ [] := by
        intro hnil
        have hfalse : (capsule.getPortsDS host 0 0).1 = false := by
          unfold CCapsule.getPortsDS
          split_ifs with hDS hlength
          · rfl
          · rfl
          · rw [hnil] at hlength
            exact absurd (Nat.zero_lt_succ 3) hlength
        rw [hports] at hfalse
        cases hfalse
      simp only [hports, if_true]
      split <;> simp [hdata]
    | false =>
      simp only [hports, if_true, Bool.false_eq_true, if_false, true_and]
      by_cases happ : capsule.appId = sanTestMessageApplicationId
      · rw [if_pos happ]
        have hmessage := logMessage_eq_none_iff capsule.data
        cases hlog : logMessage capsule.data with
        | none => simp [happ, hmessage.mp hlog]
        | some message =>
          rw [hlog] at hmessage
          simpa [happ] using hmessage
      · simp [happ]

/-- One iteration on a byte string that was received completes, and reads the data in
bounds, except for a test message to the node itself that ends behind its header. -/
theorem handle_inBounds_iff (host : ByteOrder) (object : CCapsule) {bytes : Bytes}
    {capsule : CCapsule} (hunpack : object.unpack host bytes = (true, capsule))
    (interfaceAddress : SanAddress) (node : CNode κ) (terminated : ℕ → Bool)
    (before : ℕ → List (Event κ)) :
    (∃ handled, node.handle host (capsule.setFromInterfaceAddress interfaceAddress) terminated
        before = some handled) ↔
      ¬ (node.destinationReached capsule = true ∧ capsule.appId = sanTestMessageApplicationId ∧
        bytes.length = CCapsule.headerSize) := by
  obtain ⟨hsize, hdata⟩ := CCapsule.data_of_unpack hunpack
  have hempty : capsule.data = [] ↔ bytes.length = CCapsule.headerSize := by
    rw [hdata, List.drop_eq_nil_iff]
    omega
  have hnone := handle_eq_none_iff host (capsule.setFromInterfaceAddress interfaceAddress)
    terminated before node
  have hreached : node.destinationReached (capsule.setFromInterfaceAddress interfaceAddress) =
      node.destinationReached capsule := rfl
  rw [hreached] at hnone
  rw [← Option.ne_none_iff_exists', ne_eq, hnone, ← hempty]
  rfl

/-- A message of one byte is logged. -/
theorem handle_inBounds_iff_message :
    (∃ handled, sampleNode.handle .littleEndian
        (({ sampleCapsule (FixedBytes.replicate 32 7) with data := [65] } :
          CCapsule).setFromInterfaceAddress sanDefaultAddress) (fun _ => false)
        (fun _ => []) = some handled) ↔
      ¬ (sampleNode.destinationReached
            { sampleCapsule (FixedBytes.replicate 32 7) with data := [65] } = true ∧
        (sampleCapsule (FixedBytes.replicate 32 7)).appId = sanTestMessageApplicationId ∧
        (({ sampleCapsule (FixedBytes.replicate 32 7) with data := [65] } :
          CCapsule).pack .littleEndian).length = CCapsule.headerSize) :=
  handle_inBounds_iff .littleEndian (sampleCapsule sanDefaultAddress)
    (CCapsule.unpack_pack .littleEndian .littleEndian
      { sampleCapsule (FixedBytes.replicate 32 7) with data := [65] }
      (sampleCapsule sanDefaultAddress)) sanDefaultAddress sampleNode (fun _ => false) fun _ => []

/-- The header of a test message to the node itself is accepted, and the iteration reads
in front of its empty data. -/
theorem handle_outOfBounds_header :
    ((sampleCapsule sanDefaultAddress).unpack .littleEndian
        ((sampleCapsule (FixedBytes.replicate 32 7)).pack .littleEndian)).1 = true ∧
      sampleNode.handle .littleEndian
        ((sampleCapsule sanDefaultAddress).unpack .littleEndian
          ((sampleCapsule (FixedBytes.replicate 32 7)).pack .littleEndian)).2
        (fun _ => false) (fun _ => []) = none := by
  decide +kernel

end CNode

end San2.Node
