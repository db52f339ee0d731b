import San2.Library.LossyPipeline
import San2.Node.CapsuleNetwork

/-!
# A flow of capsules through the network

Some capsules to one address are put in at one node only. On their way to the application
queues of the node with the address they go through a row of queues: the input queue of the
first node, its router, the output queue of the interface that leads to the address, the
link, and the input queue of the other node. So what comes out is a subsequence of what
was put in, whatever else the network carries.
-/

namespace San2.Node

open Utils Network Interfaces

variable {ι κ : Type}

/-- Capsules from one node to an address of one node. At most one interface of the first node
leads to the address. -/
structure Flow (topology : Topology ι κ) where
  source : ι
  destination : ι
  address : SanAddress
  index : ℕ
  /-- The capsules of the flow, wherever they have been received. -/
  chosen : CCapsule → Bool
  chosen_address : ∀ {capsule}, chosen capsule = true → capsule.dstAddress = address
  chosen_from : ∀ capsule interfaceAddress,
    chosen (capsule.setFromInterfaceAddress interfaceAddress) = chosen capsule
  ne_default : address ≠ sanDefaultAddress
  owner : ∀ {x}, address ∈ topology.addresses x ↔ x = destination
  link : ∀ {other}, topology.peerAddress source other = some address → other = index

namespace Flow

variable {topology : Topology ι κ} (flow : Flow topology)

/-- The capsules of the flow, without the interfaces that have received them. -/
def select (capsules : List CCapsule) : List CCapsule :=
  (capsules.filter flow.chosen).map fun capsule => capsule.setFromInterfaceAddress sanDefaultAddress

/-- The capsules of the flow in two lists. -/
theorem select_append (first second : List CCapsule) :
    flow.select (first ++ second) = flow.select first ++ flow.select second := by
  unfold select
  rw [List.filter_append, List.map_append]

/-- The capsules of the flow in a list that begins with one. -/
theorem select_cons (capsule : CCapsule) (capsules : List CCapsule) :
    flow.select (capsule :: capsules) = flow.select [capsule] ++ flow.select capsules :=
  flow.select_append [capsule] capsules

/-- What is left of a list is left of its capsules of the flow. -/
theorem select_sublist {first second : List CCapsule} (h : first.Sublist second) :
    (flow.select first).Sublist (flow.select second) := (h.filter _).map _

/-- A capsule outside the flow is left out. -/
theorem select_not_chosen {capsule : CCapsule} (h : flow.chosen capsule ≠ true) :
    flow.select [capsule] = [] := by
  unfold select
  rw [List.filter_singleton, Bool.eq_false_of_not_eq_true h]
  rfl

/-- The address of the receiving interface is left out. -/
theorem select_from (capsule : CCapsule) (interfaceAddress : SanAddress) :
    flow.select [capsule.setFromInterfaceAddress interfaceAddress] = flow.select [capsule] := by
  unfold select
  rw [List.filter_singleton, List.filter_singleton, flow.chosen_from]
  cases flow.chosen capsule with
  | true => rfl
  | false => rfl

/-- What of the flow the router of the first node still brings to the interface. -/
def hand : Option (CCapsule × ℕ) → List CCapsule
  | some (capsule, index) => if index ≤ flow.index then flow.select [capsule] else []
  | none => []

/-- The router has looked at one interface more. -/
theorem hand_sublist (capsule : CCapsule) (index : ℕ) :
    (flow.hand (some (capsule, index + 1))).Sublist (flow.hand (some (capsule, index))) := by
  simp only [hand]
  split_ifs with hlater hnow hnow
  · exact List.Sublist.refl _
  · omega
  · exact List.nil_sublist _
  · exact List.Sublist.refl _

/-- The router has not come past the interface of the flow yet. -/
theorem hand_self (capsule : CCapsule) :
    flow.hand (some (capsule, flow.index)) = flow.select [capsule] := if_pos (Nat.le_refl _)

/-- The router has come past the interface of the flow. -/
theorem hand_succ (capsule : CCapsule) : flow.hand (some (capsule, flow.index + 1)) = [] :=
  if_neg (Nat.not_succ_le_self _)

/-- The flow at the node that it goes to. -/
def arriving (station : Station κ) : List (List CCapsule) :=
  [flow.select (station.delivered.map Prod.snd), flow.select station.m_inputQueue.m_que]

/-- The flow at the node that it comes from. -/
def leaving (station : Station κ) : List (List CCapsule) :=
  [flow.select (station.wires flow.index), flow.select (station.node.outputQueue flow.index),
    flow.hand station.routing, flow.select station.m_inputQueue.m_que]

/-- The row of queues that the flow goes through. A node sends nothing to itself. -/
def pipeline [DecidableEq ι] (source destination : Station κ) : LossyPipeline CCapsule where
  stages := flow.arriving destination ++
    if flow.source = flow.destination then [] else flow.leaving source
  entered := flow.select source.injected

section

variable {flow} {host : ByteOrder} {station station' : Station κ} {action : Station.Action κ}

/-- The router takes a capsule to its own node from the input queue. -/
theorem reaches_own {capsule : CCapsule} {q : CProducerConsumer CCapsule}
    (hque : station.m_inputQueue.m_que = capsule :: q.m_que) (node : CNode κ)
    (recipient : Option κ) (later : List (List CCapsule)) (entered : List CCapsule) :
    LossyPipeline.Reaches ⟨flow.arriving station ++ later, entered⟩
      ⟨flow.arriving { station with
        node := node
        m_inputQueue := q
        delivered := station.delivered ++ (recipient.toList.map fun dsque => (dsque, capsule)) } ++
          later, entered⟩ := by
  unfold arriving
  rw [hque, flow.select_cons]
  cases recipient with
  | none =>
    simp only [Option.toList_none, List.map_nil, List.append_nil]
    exact .lose [flow.select (station.delivered.map Prod.snd)] later _ entered
      (List.sublist_append_right _ _)
  | some dsque =>
    simp only [Option.toList_some, List.map_append, List.map_cons, List.map_nil,
      flow.select_append]
    exact .pass [] later _ _ _ entered

/-- Steps at the node that the flow goes to, where it does not begin there. -/
theorem reaches_arriving [DecidableEq κ]
    (hhappens : Station.Happens host station action station')
    (hinject : ∀ capsule, action = .inject capsule → flow.chosen capsule ≠ true)
    (hown : ∀ capsule, flow.chosen capsule = true →
      station.node.destinationReached capsule = true)
    (later : List (List CCapsule)) (entered : List CCapsule) :
    LossyPipeline.Reaches ⟨flow.arriving station ++ later, entered⟩
      ⟨flow.arriving station' ++ later, entered⟩ := by
  cases hhappens with
  | inject capsule q hque =>
    have hnot := flow.select_not_chosen (hinject capsule rfl)
    unfold arriving
    rw [hque, flow.select_append, hnot, List.append_nil]
  | own capsule q handled hque hreached hhandle hidle hrunning =>
    exact reaches_own hque handled.node _ later entered
  | other capsule q hque hother hidle hrunning =>
    have hnot : flow.chosen capsule ≠ true := by
      intro hchosen
      rw [hown capsule hchosen] at hother
      cases hother
    unfold arriving
    rw [hque, flow.select_cons, flow.select_not_chosen hnot, List.nil_append]
  | _ => exact .refl

/-- Steps at the node that the flow comes from, where it does not end there. -/
theorem reaches_leaving [DecidableEq κ]
    (hhappens : Station.Happens host station action station')
    (hother : ∀ capsule, station.node.destinationReached capsule = true →
      flow.chosen capsule ≠ true) (front : List (List CCapsule)) :
    LossyPipeline.Reaches ⟨front ++ flow.leaving station, flow.select station.injected⟩
      ⟨front ++ flow.leaving station', flow.select station'.injected⟩ := by
  have hevent : ∀ event : CNode.Event κ, (∀ index, event ≠ .line index .transmitted) →
      (station.node.apply event).outputQueue flow.index = station.node.outputQueue flow.index :=
    fun event hqueue => CNode.outputQueue_apply station.node hqueue flow.index
  unfold leaving
  cases hhappens with
  | inject capsule q hque =>
    have henter := LossyPipeline.Reaches.enter (front ++ [flow.select (station.wires flow.index),
      flow.select (station.node.outputQueue flow.index), flow.hand station.routing])
      (flow.select station.m_inputQueue.m_que) (flow.select station.injected)
      (flow.select [capsule])
    rw [List.append_assoc, List.append_assoc] at henter
    dsimp only
    rw [hque, flow.select_append, flow.select_append]
    exact henter
  | port call =>
    dsimp only
    rw [hevent (.port call) (by simp)]
  | taken applicationQueue capsule rest hque =>
    dsimp only
    rw [hevent (.taken applicationQueue) (by simp)]
  | connected index data =>
    dsimp only
    rw [hevent (.line index (.connected data)) (by simp)]
  | disconnected index =>
    dsimp only
    rw [hevent (.line index .disconnected) (by simp)]
  | transmitted index capsule rest hque =>
    dsimp only
    rw [CNode.outputQueue_transmitted]
    by_cases heq : flow.index = index
    · subst heq
      rw [if_pos rfl, Function.update_self, hque, flow.select_append, flow.select_cons]
      exact .pass front _ _ _ _ _
    · rw [if_neg heq, Function.update_of_ne heq]
  | lost index place =>
    dsimp only
    rw [Function.update_apply]
    split_ifs with heq
    · subst heq
      exact .lose front _ _ _ (flow.select_sublist (List.eraseIdx_sublist _ _))
    · exact .refl
  | own capsule q handled hque hown hhandle hidle hrunning =>
    dsimp only
    rw [hque, flow.select_cons, flow.select_not_chosen (hother capsule hown), List.nil_append]
    unfold CNode.outputQueue
    rw [(CNode.handle_own hown hhandle).1]
  | other capsule q hque hnot hidle hrunning =>
    have hpass := LossyPipeline.Reaches.pass (front ++ [flow.select (station.wires flow.index),
      flow.select (station.node.outputQueue flow.index)]) [] (flow.hand station.routing)
      (flow.select [capsule]) (flow.select q.m_que) (flow.select station.injected)
    rw [List.append_assoc, List.append_assoc] at hpass
    dsimp only
    rw [hque, flow.select_cons, hidle]
    rw [hidle] at hpass
    exact hpass
  | looked capsule index line hrouting hline =>
    dsimp only
    rw [hrouting]
    rcases CNode.outputQueue_set hline capsule false flow.index with hsame | ⟨rfl, -, hqueued⟩
    · have hlose := LossyPipeline.Reaches.lose (front ++ [flow.select (station.wires flow.index),
        flow.select (station.node.outputQueue flow.index)])
        [flow.select station.m_inputQueue.m_que] _ (flow.select station.injected)
        (flow.hand_sublist capsule index)
      rw [List.append_assoc, List.append_assoc] at hlose
      rw [hsame]
      exact hlose
    · have hpass := LossyPipeline.Reaches.pass (front ++ [flow.select (station.wires flow.index)])
        [flow.select station.m_inputQueue.m_que]
        (flow.select (station.node.outputQueue flow.index)) (flow.select [capsule]) []
        (flow.select station.injected)
      rw [List.append_assoc, List.append_assoc, List.append_nil] at hpass
      rw [hqueued, flow.select_append, flow.hand_self, flow.hand_succ]
      exact hpass
  | finished capsule index hrouting hnone =>
    have hlose := LossyPipeline.Reaches.lose (front ++ [flow.select (station.wires flow.index),
      flow.select (station.node.outputQueue flow.index)])
      [flow.select station.m_inputQueue.m_que] (flow.hand station.routing)
      (flow.select station.injected) (List.nil_sublist _)
    rw [List.append_assoc, List.append_assoc] at hlose
    exact hlose

end

variable [DecidableEq ι]

/-- Only the node that the flow comes from puts its capsules in. -/
def Admits : CapsuleNetwork.Action ι κ → Prop
  | .station x (.inject capsule) => flow.chosen capsule = true → x = flow.source
  | _ => True

/-- The flow has come to a state of the network, and all of it was put in at its source. -/
structure Reached (network : CapsuleNetwork ι κ) : Prop where
  inv : CapsuleNetwork.Inv topology network
  source : ∀ x, ∀ capsule ∈ (network x).injected, flow.chosen capsule = true → x = flow.source
  reaches : LossyPipeline.Reaches
    (flow.pipeline (CapsuleNetwork.start topology flow.source)
      (CapsuleNetwork.start topology flow.destination))
    (flow.pipeline (network flow.source) (network flow.destination))

variable {flow} {network network' : CapsuleNetwork ι κ}

omit [DecidableEq ι] in
/-- A capsule of the flow is for a node exactly if the flow goes to the node. -/
theorem destinationReached_iff (h : CapsuleNetwork.Inv topology network) {x : ι}
    {capsule : CCapsule} (hchosen : flow.chosen capsule = true) :
    (network x).node.destinationReached capsule = true ↔ x = flow.destination := by
  rw [CNode.destinationReached_iff, (h x).honest.addresses, flow.chosen_address hchosen,
    flow.owner]

/-- A flow to its own node has only the stages of one station. -/
theorem pipeline_local (hends : flow.source = flow.destination) (station : Station κ) :
    flow.pipeline station station =
      ⟨flow.arriving station ++ [], flow.select station.injected⟩ := by
  unfold pipeline
  rw [if_pos hends]

/-- A flow to another node goes through the stages of both. -/
theorem pipeline_remote (hends : flow.source ≠ flow.destination) (source destination : Station κ) :
    flow.pipeline source destination =
      ⟨flow.arriving destination ++ flow.leaving source, flow.select source.injected⟩ := by
  unfold pipeline
  rw [if_neg hends]

variable [DecidableEq κ]

omit [DecidableEq ι] in
/-- A flow within one node: what is put in enters the input queue that it is taken from. -/
theorem reaches_local {host : ByteOrder} {station station' : Station κ}
    {action : Station.Action κ} (hhappens : Station.Happens host station action station')
    (hown : ∀ capsule, flow.chosen capsule = true →
      station.node.destinationReached capsule = true) :
    LossyPipeline.Reaches ⟨flow.arriving station ++ [], flow.select station.injected⟩
      ⟨flow.arriving station' ++ [], flow.select station'.injected⟩ := by
  by_cases hinject : ∃ capsule, action = .inject capsule
  · obtain ⟨capsule, rfl⟩ := hinject
    cases hhappens with
    | inject _ q hque =>
      unfold arriving
      dsimp only
      rw [hque, flow.select_append, flow.select_append, List.append_nil, List.append_nil]
      exact .enter [flow.select (station.delivered.map Prod.snd)] _ _ _
  · have hnot : ∀ capsule, action ≠ .inject capsule := fun capsule heq => hinject ⟨capsule, heq⟩
    rw [hhappens.injected_eq hnot]
    exact reaches_arriving hhappens (fun capsule heq => absurd heq (hnot capsule)) hown [] _

/-- A step of one node. -/
theorem Reached.happens (h : flow.Reached network) {x : ι} {action : Station.Action κ}
    (hadmits : flow.Admits (.station x action)) {station' : Station κ}
    (hhappens : Station.Happens (topology.host x) (network x) action station') :
    LossyPipeline.Reaches (flow.pipeline (network flow.source) (network flow.destination))
      (flow.pipeline (Function.update network x station' flow.source)
        (Function.update network x station' flow.destination)) := by
  have hreached : ∀ capsule, flow.chosen capsule = true →
      ((network x).node.destinationReached capsule = true ↔ x = flow.destination) :=
    fun capsule hchosen => destinationReached_iff h.inv hchosen
  by_cases hends : flow.source = flow.destination
  · rw [← hends, pipeline_local hends, pipeline_local hends]
    by_cases hx : flow.source = x
    · subst hx
      rw [Function.update_self]
      exact reaches_local hhappens fun capsule hchosen => (hreached capsule hchosen).mpr hends
    · rw [Function.update_of_ne hx]
  · rw [pipeline_remote hends, pipeline_remote hends]
    by_cases hx : flow.destination = x
    · subst hx
      rw [Function.update_self, Function.update_of_ne hends]
      refine reaches_arriving hhappens (fun capsule heq hchosen => ?_)
        (fun capsule hchosen => (hreached capsule hchosen).mpr rfl) _ _
      subst heq
      exact hends (hadmits hchosen).symm
    · rw [Function.update_of_ne hx]
      by_cases hsource : flow.source = x
      · subst hsource
        rw [Function.update_self]
        refine reaches_leaving hhappens (fun capsule hown hchosen => ?_) _
        exact hx ((hreached capsule hchosen).mp hown).symm
      · rw [Function.update_of_ne hsource]

section

variable {x y : ι} {index : ℕ} {interfaceAddress : SanAddress} {capsule : CCapsule}
  {rest : List CCapsule}
  (harrives : CapsuleNetwork.Arrives network x index y interfaceAddress capsule rest network')

include harrives

omit [DecidableEq κ]

/-- Only the queue at the destination gets a new capsule. -/
theorem select_inputQueue (z : ι) : flow.select (network' z).m_inputQueue.m_que =
    flow.select (network z).m_inputQueue.m_que ++ if z = y then flow.select [capsule] else [] := by
  rw [harrives.inputQueue]
  split_ifs
  · rw [flow.select_append, flow.select_from]
  · rw [List.append_nil]

/-- Only the wire of the flow is shorter. -/
theorem wires_of_arrives (z : ι) : (network' z).wires flow.index =
    if z = x ∧ flow.index = index then rest else (network z).wires flow.index := by
  rw [harrives.wires]
  by_cases hz : z = x
  · subst hz
    simp [Function.update_apply]
  · simp [hz]

/-- What does not belong to the flow changes nothing. -/
theorem pipeline_of_not_chosen (hnot : flow.chosen capsule ≠ true) :
    flow.pipeline (network' flow.source) (network' flow.destination) =
      flow.pipeline (network flow.source) (network flow.destination) := by
  have hqueue : ∀ z, flow.select (network' z).m_inputQueue.m_que =
      flow.select (network z).m_inputQueue.m_que := by
    intro z
    rw [select_inputQueue harrives, flow.select_not_chosen hnot, ite_self, List.append_nil]
  have hwire : ∀ z, flow.select ((network' z).wires flow.index) =
      flow.select ((network z).wires flow.index) := by
    intro z
    rw [wires_of_arrives harrives]
    split_ifs with heq
    · obtain ⟨rfl, rfl⟩ := heq
      rw [harrives.wire, flow.select_cons, flow.select_not_chosen hnot, List.nil_append]
    · rfl
  unfold pipeline arriving leaving
  simp only [hqueue, hwire, harrives.delivered, harrives.node, harrives.routing,
    harrives.injected]

end

omit [DecidableEq κ] in
/-- A capsule comes from one node to another. -/
theorem Reached.arrives (h : flow.Reached network) {x y : ι} {index other : ℕ}
    {address interfaceAddress : SanAddress} {capsule : CCapsule} {rest : List CCapsule}
    (hpeer : topology.peer x index = some (y, other))
    (haddress : (topology.addresses y)[other]? = some address)
    (harrives : CapsuleNetwork.Arrives network x index y interfaceAddress capsule rest network') :
    LossyPipeline.Reaches (flow.pipeline (network flow.source) (network flow.destination))
      (flow.pipeline (network' flow.source) (network' flow.destination)) := by
  by_cases hchosen : flow.chosen capsule = true
  · have hmem : capsule ∈ (network x).wires index := by
      rw [harrives.wire]
      exact List.mem_cons_self
    have hdst := flow.chosen_address hchosen
    have hne : capsule.dstAddress ≠ sanDefaultAddress := by
      rw [hdst]
      exact flow.ne_default
    -- Only the source of the flow sends it, over its own interface, to its destination.
    obtain ⟨⟨hinjected, hforeign⟩, rfl⟩ := (h.inv x).arrives hpeer haddress hmem hne
    have hannounced := ((h.inv x).wires index capsule hmem hne).2
    obtain rfl := h.source x capsule hinjected hchosen
    rw [hdst] at hforeign hannounced haddress
    obtain rfl := flow.link hannounced
    obtain rfl := flow.owner.mp (List.mem_of_getElem? haddress)
    have hends : flow.source ≠ flow.destination := by
      intro heq
      exact hforeign (flow.owner.mpr heq)
    rw [pipeline_remote hends, pipeline_remote hends]
    unfold arriving leaving
    rw [select_inputQueue harrives, select_inputQueue harrives, if_pos rfl, if_neg hends,
      List.append_nil, wires_of_arrives harrives, if_pos ⟨rfl, rfl⟩, harrives.wire,
      flow.select_cons, harrives.delivered, harrives.node, harrives.routing, harrives.injected]
    exact .pass [flow.select ((network flow.destination).delivered.map Prod.snd)] _ _ _ _ _
  · rw [pipeline_of_not_chosen harrives hchosen]

/-- Every step of the network in which the flow is put in at its source only is matched by steps
of the row of queues. -/
theorem Reached.step (h : flow.Reached network) {action : CapsuleNetwork.Action ι κ}
    (hadmits : flow.Admits action)
    (hstep : CapsuleNetwork.step topology network action = some network') :
    flow.Reached network' := by
  have hinv := h.inv.step hstep
  cases action with
  | station x action =>
    obtain ⟨-, station', hhappens, rfl⟩ := CapsuleNetwork.happens_of_step hstep
    refine ⟨hinv, fun z sent hmem hchosen => ?_, h.reaches.trans (h.happens hadmits hhappens)⟩
    by_cases hz : z = x
    · subst hz
      rw [Function.update_self] at hmem
      by_cases hinject : ∃ capsule, action = .inject capsule
      · obtain ⟨capsule, rfl⟩ := hinject
        cases hhappens with
        | inject _ q hque =>
          rcases List.mem_append.mp hmem with hmem | hmem
          · exact h.source z sent hmem hchosen
          · obtain rfl := List.mem_singleton.mp hmem
            exact hadmits hchosen
      · rw [hhappens.injected_eq fun capsule heq => hinject ⟨capsule, heq⟩] at hmem
        exact h.source z sent hmem hchosen
    · rw [Function.update_of_ne hz] at hmem
      exact h.source z sent hmem hchosen
  | arrived x index memory interfaceAddress =>
    obtain ⟨y, other, address, capsule, rest, hpeer, haddress, harrives⟩ :=
      CapsuleNetwork.arrives_of_step hstep
    refine ⟨hinv, fun z sent hmem hchosen => ?_,
      h.reaches.trans (h.arrives hpeer haddress harrives)⟩
    rw [harrives.injected] at hmem
    exact h.source z sent hmem hchosen

omit [DecidableEq κ] in
/-- Nothing has entered yet. -/
theorem reached_start (flow : Flow topology) :
    flow.Reached (CapsuleNetwork.start topology) :=
  ⟨CapsuleNetwork.inv_start topology, fun _ _ hmem _ => absurd hmem List.not_mem_nil, .refl⟩

/-- After every run the stages hold what has entered and was not lost. -/
theorem reached_of_run {actions : List (CapsuleNetwork.Action ι κ)}
    (hadmits : ∀ action ∈ actions, flow.Admits action)
    (hrun : Execution.run (CapsuleNetwork.step topology) (CapsuleNetwork.start topology) actions =
      some network) : flow.Reached network :=
  Execution.run_invariant (fun h hadmits hstep => Reached.step h hadmits hstep) hadmits
    (reached_start flow) hrun

omit [DecidableEq κ] in
/-- The row of queues is in order, since it was empty. -/
theorem Reached.inOrder (h : flow.Reached network) :
    (flow.pipeline (network flow.source) (network flow.destination)).InOrder := by
  refine LossyPipeline.InOrder.reaches ?_ h.reaches
  unfold LossyPipeline.InOrder pipeline arriving leaving
  rw [CapsuleNetwork.outputQueue_start]
  split_ifs
  · exact List.nil_sublist _
  · exact List.nil_sublist _

omit [DecidableEq κ] in
/-- What was put on application queues is in the order in which it was put in. -/
theorem Reached.delivered (h : flow.Reached network) :
    (flow.select ((network flow.destination).delivered.map Prod.snd)).Sublist
      (flow.select (network flow.source).injected) :=
  LossyPipeline.InOrder.exit h.inOrder

/-- In every run in which only one node puts in the capsules of a flow, those that have come to
the application queues of its destination, in whatever order of the queues, are a subsequence of
those that were put in. So are those that an application has taken. No other application has
taken one. -/
theorem flow_in_order (flow : Flow topology) {actions : List (CapsuleNetwork.Action ι κ)}
    (hadmits : ∀ action ∈ actions, flow.Admits action)
    (hrun : Execution.run (CapsuleNetwork.step topology) (CapsuleNetwork.start topology) actions =
      some network) :
    (flow.select ((network flow.destination).delivered.map Prod.snd)).Sublist
        (flow.select (network flow.source).injected) ∧
      ∀ x applicationQueue,
        (flow.select (Station.ofQueue applicationQueue (network x).taken)).Sublist
          (if x = flow.destination then flow.select (network flow.source).injected else []) := by
  have hreached := reached_of_run hadmits hrun
  refine ⟨hreached.delivered, fun x applicationQueue => ?_⟩
  have htaken := flow.select_sublist
    ((CapsuleNetwork.settled_of_run hrun x).taken_sublist applicationQueue)
  split_ifs with hx
  · subst hx
    exact htaken.trans hreached.delivered
  · -- Every capsule that is delivered at a node has one of its addresses.
    have hnone : flow.select ((network x).delivered.map Prod.snd) = [] := by
      unfold select
      rw [List.map_eq_nil_iff, List.filter_eq_nil_iff]
      intro capsule hmem hchosen
      obtain ⟨entry, hentry, rfl⟩ := List.mem_map.mp hmem
      have haddress := ((hreached.inv x).delivered entry hentry).1
      rw [flow.chosen_address hchosen] at haddress
      exact hx (flow.owner.mp haddress)
    rwa [hnone] at htaken

/-- Everything that the first of two nodes sends to the second one. -/
def toSecond : Flow CapsuleNetwork.pair where
  source := false
  destination := true
  address := FixedBytes.replicate 32 8
  index := 0
  chosen capsule := capsule.dstAddress == FixedBytes.replicate 32 8
  chosen_address h := beq_iff_eq.mp h
  chosen_from _ _ := rfl
  ne_default := by decide
  owner := by
    intro x
    cases x <;> decide
  link := by
    intro other h
    by_contra hne
    simp [CapsuleNetwork.pair, Topology.peerAddress, hne] at h

/-- One capsule from the first node of a pair to the second. -/
theorem flow_in_order_exchange :
    ∃ network, Execution.run (CapsuleNetwork.step CapsuleNetwork.pair)
        (CapsuleNetwork.start CapsuleNetwork.pair) CapsuleNetwork.exchange = some network ∧
      Station.ofQueue () (network true).taken =
        [CapsuleNetwork.datagram.setFromInterfaceAddress (FixedBytes.replicate 32 8)] ∧
      (toSecond.select ((network true).delivered.map Prod.snd)).Sublist
        (toSecond.select (network false).injected) ∧
      ∀ x applicationQueue,
        (toSecond.select (Station.ofQueue applicationQueue (network x).taken)).Sublist
          (if x = true then toSecond.select (network false).injected else []) := by
  obtain ⟨network, hrun, htaken⟩ := CapsuleNetwork.exchange_delivers
  refine ⟨network, hrun, htaken, flow_in_order toSecond ?_ hrun⟩
  simp [CapsuleNetwork.exchange, Admits, toSecond]

end Flow

end San2.Node
