import San2.Library.Lifetimes
import San2.Node.CNode

/-!
# The channels of the applications

The API server of a node makes a channel for each application that connects, and a thread that
serves it. When the application hangs up, the thread frees its ports and ends; the server
deletes the channel later, and a new channel may be made at the same address. The port map has
nothing but addresses. The router looks up the address for a port and then puts its capsule on
the queue there, while all the other threads go on.
-/

namespace San2.Api

open Utils Network Node

/-- How far the thread of a channel has come. -/
inductive Phase
  /-- `m_rpcexec->run()` answers the application. -/
  | serving
  /-- `receive` has freed the ports. -/
  | freed
  /-- `mFinished` is set. -/
  | finished
  deriving DecidableEq

/-- A capsule, with the number of the channel that owned its port when the router looked. -/
structure Addressed where
  capsule : CCapsule
  owner : ℕ
  deriving DecidableEq

/-- A channel: how far its thread has come, and the queue of its application. -/
structure CNodeServiceChannel where
  phase : Phase
  m_applicationQueue : CProducerConsumer Addressed

/-- `SAN2_CNODESERVICECHANNEL_APPQUEMAXLEN` -/
def appQueMaxLen : ℕ := 20

/-- A new channel serves, with an empty queue. -/
def CNodeServiceChannel.create : CNodeServiceChannel := ⟨.serving, .create appQueMaxLen⟩

/-- The API server of a node, with what its router works on. -/
structure ApiServer (α : Type) where
  m_portmap : CPortmap α
  mThreads : Lifetimes α CNodeServiceChannel
  /-- What the router has found for the capsule it is at, and has not pushed yet. -/
  dsque : Option (α × Addressed)
  /-- The router has not left its loop. -/
  running : Bool
  /-- The numbers of the channels that were the last to register the ports. -/
  registrants : UInt16 → ℕ
  /-- The numbers of the channels whose queues the router has pushed to, with what it pushed. -/
  written : List (ℕ × Addressed)
  /-- What applications have taken, with the numbers of their channels. -/
  taken : List (ℕ × Addressed)

/-- What the server, the threads of the channels, the applications and the router do. -/
inductive Action (α : Type)
  /-- `startThread`, with the address of the new channel -/
  | accepted (address : α)
  | registerPort (address : α) (port : UInt16)
  | getEphemeralPort (address : α)
  /-- An application takes a capsule from the queue of its channel. -/
  | take (address : α)
  /-- `m_rpcexec->run()` returns. -/
  | hungUp (address : α)
  | finished (address : α)
  /-- `joinIfFinished` comes to the channel. -/
  | joined (address : α)
  /-- The router looks up the port of a capsule that has reached its destination. -/
  | looked (capsule : CCapsule)
  | pushed (terminated : Bool)

/-- The action asks for the port on behalf of the channel at the address: by its number, or as
whichever ephemeral port is free. Such an action may fail; `Took` is one that has not. -/
def Action.Registers {α : Type} (address : α) (port : UInt16) : Action α → Prop
  | .registerPort other requested => other = address ∧ requested = port
  | .getEphemeralPort other => other = address
  | _ => False

/-- The action asks for something that may not be there. -/
def Action.Asks {α : Type} : Action α → Prop
  | .registerPort _ _ => True
  | .getEphemeralPort _ => True
  | .looked _ => True
  | _ => False

/-- The channel at the address stops serving, or is another one from then on. -/
def Action.Ends {α : Type} (address : α) : Action α → Prop
  | .accepted other => other = address
  | .hungUp other => other = address
  | .finished other => other = address
  | .joined other => other = address
  | _ => False

namespace ApiServer

variable {α : Type} [DecidableEq α]

/-- A server without channels. -/
def create : ApiServer α := ⟨.create, .empty, none, true, fun _ => 0, [], []⟩

/-- The channel at an address, with its number, if its thread is in a phase. -/
def channelIn (phase : Phase) (address : α) (s : ApiServer α) : Option (ℕ × CNodeServiceChannel) :=
  (s.mThreads.objects address).filter fun entry => entry.2.phase = phase

/-- The channel in a phase. -/
def setPhase (phase : Phase) (channel : CNodeServiceChannel) : CNodeServiceChannel :=
  { channel with phase := phase }

/-- The channel with its queue changed. -/
def setQueue (q : CProducerConsumer Addressed) (channel : CNodeServiceChannel) :
    CNodeServiceChannel :=
  { channel with m_applicationQueue := q }

/-- The state after an action. There is none after an action that cannot happen, or after a push
to a channel that has been deleted. -/
def step (host : ByteOrder) (s : ApiServer α) : Action α → Option (ApiServer α)
  | .accepted address =>
    (s.mThreads.make address .create).map fun mThreads => { s with mThreads := mThreads }
  | .registerPort address port =>
    (s.channelIn .serving address).map fun entry =>
      let (registered, m_portmap) := s.m_portmap.registerPort port address
      { s with
        m_portmap := m_portmap
        registrants := if registered then Function.update s.registrants port entry.1
          else s.registrants }
  | .getEphemeralPort address =>
    (s.channelIn .serving address).map fun entry =>
      let (port, m_portmap) := s.m_portmap.getEphemeralPort address
      { s with
        m_portmap := m_portmap
        registrants := if port = 0 then s.registrants
          else Function.update s.registrants port entry.1 }
  | .take address =>
    (s.channelIn .serving address).bind fun entry =>
      let q := entry.2.m_applicationQueue
      match q.m_que with
      | [] => none
      | item :: rest => some { s with
          mThreads := s.mThreads.modify address (setQueue { q with m_que := rest })
          taken := s.taken ++ [(entry.1, item)] }
  | .hungUp address =>
    (s.channelIn .serving address).map fun _ =>
      { s with
        m_portmap := s.m_portmap.freePorts address
        mThreads := s.mThreads.modify address (setPhase .freed) }
  | .finished address =>
    (s.channelIn .freed address).map fun _ =>
      { s with mThreads := s.mThreads.modify address (setPhase .finished) }
  | .joined address =>
    (s.channelIn .finished address).map fun _ =>
      { s with mThreads := s.mThreads.delete address }
  | .looked capsule =>
    if s.running ∧ s.dsque.isNone then
      let (ok, dstport, _) := capsule.getPortsDS host 0 0
      if ok then
        some { s with dsque := (s.m_portmap.getPortQueue dstport).map fun address =>
          (address, ⟨capsule, s.registrants dstport⟩) }
      else some s
    else none
  | .pushed terminated =>
    s.dsque.bind fun (address, item) =>
      (s.mThreads.objects address).map fun entry =>
        let (code, q) := entry.2.m_applicationQueue.try_pushNow item terminated
        { s with
          mThreads := s.mThreads.modify address (setQueue q)
          dsque := none
          running := code != -1
          written := s.written ++ [(entry.1, item)] }

/-- All that an action can do. -/
inductive Does (s : ApiServer α) : Action α → ApiServer α → Prop
  | accepted (address : α) (mThreads : Lifetimes α CNodeServiceChannel)
      (hmake : s.mThreads.make address .create = some mThreads) :
      Does s (.accepted address) { s with mThreads := mThreads }
  /-- A serving channel gets a port that was free. -/
  | registered (action : Action α) (address : α) (number : ℕ) (channel : CNodeServiceChannel)
      (port ephemeralPort : UInt16) (haction : action.Registers address port)
      (hobject : s.mThreads.objects address = some (number, channel))
      (hserving : channel.phase = .serving) (hfree : s.m_portmap.getPortQueue port = none)
      (hrange : (CPortmap.mk (s.m_portmap.mapPorts.insert port address) ephemeralPort).InRange) :
      Does s action { s with
        m_portmap := ⟨s.m_portmap.mapPorts.insert port address, ephemeralPort⟩
        registrants := Function.update s.registrants port number }
  /-- The port is taken, or there is none to look up. -/
  | unchanged (action : Action α) (haction : action.Asks) : Does s action s
  | taken (address : α) (number : ℕ) (channel : CNodeServiceChannel) (item : Addressed)
      (rest : List Addressed) (hobject : s.mThreads.objects address = some (number, channel))
      (hque : channel.m_applicationQueue.m_que = item :: rest) :
      Does s (.take address) { s with
        mThreads := s.mThreads.modify address
          (setQueue { channel.m_applicationQueue with m_que := rest })
        taken := s.taken ++ [(number, item)] }
  | hungUp (address : α) :
      Does s (.hungUp address) { s with
        m_portmap := s.m_portmap.freePorts address
        mThreads := s.mThreads.modify address (setPhase .freed) }
  | finished (address : α) (number : ℕ) (channel : CNodeServiceChannel)
      (hobject : s.mThreads.objects address = some (number, channel))
      (hphase : channel.phase = .freed) :
      Does s (.finished address)
        { s with mThreads := s.mThreads.modify address (setPhase .finished) }
  | joined (address : α) (number : ℕ) (channel : CNodeServiceChannel)
      (hobject : s.mThreads.objects address = some (number, channel))
      (hphase : channel.phase = .finished) :
      Does s (.joined address) { s with mThreads := s.mThreads.delete address }
  | looked (host : ByteOrder) (capsule : CCapsule)
      (hports : (capsule.getPortsDS host 0 0).1 = true) :
      Does s (.looked capsule) { s with
        dsque := (s.m_portmap.getPortQueue (capsule.getPortsDS host 0 0).2.1).map fun address =>
          (address, ⟨capsule, s.registrants (capsule.getPortsDS host 0 0).2.1⟩) }
  | pushed (terminated : Bool) (address : α) (item : Addressed) (number : ℕ)
      (channel : CNodeServiceChannel) (hdsque : s.dsque = some (address, item))
      (hobject : s.mThreads.objects address = some (number, channel)) :
      Does s (.pushed terminated) { s with
        mThreads := s.mThreads.modify address
          (setQueue (channel.m_applicationQueue.try_pushNow item terminated).2)
        dsque := none
        running := (channel.m_applicationQueue.try_pushNow item terminated).1 != -1
        written := s.written ++ [(number, item)] }

omit [DecidableEq α] in
/-- A channel in a phase is one that is at the address and in the phase. -/
theorem channelIn_eq_some {s : ApiServer α} {phase : Phase} {address : α}
    {entry : ℕ × CNodeServiceChannel} :
    s.channelIn phase address = some entry ↔
      s.mThreads.objects address = some entry ∧ entry.2.phase = phase := by
  unfold channelIn
  rw [Option.filter_eq_some_iff, decide_eq_true_eq]

/-- Every step does one of these things. -/
theorem does_of_step {host : ByteOrder} {s s' : ApiServer α} {action : Action α}
    (hrange : s.m_portmap.InRange) (h : s.step host action = some s') : s.Does action s' := by
  cases action with
  | accepted address =>
    obtain ⟨mThreads, hmake, rfl⟩ := Option.map_eq_some_iff.mp h
    exact .accepted address mThreads hmake
  | registerPort address port =>
    obtain ⟨⟨number, channel⟩, hchannel, rfl⟩ := Option.map_eq_some_iff.mp h
    obtain ⟨hobject, hserving⟩ := channelIn_eq_some.mp hchannel
    dsimp only
    by_cases hfree : s.m_portmap.getPortQueue port = none
    · rw [CPortmap.registerPort_free hfree]
      exact .registered _ address number channel port _ ⟨rfl, rfl⟩ hobject hserving hfree hrange
    · obtain ⟨owner, howner⟩ := Option.ne_none_iff_exists'.mp hfree
      rw [CPortmap.registerPort_owned howner]
      exact .unchanged _ trivial
  | getEphemeralPort address =>
    obtain ⟨⟨number, channel⟩, hchannel, rfl⟩ := Option.map_eq_some_iff.mp h
    obtain ⟨hobject, hserving⟩ := channelIn_eq_some.mp hchannel
    have hallocates := CPortmap.getEphemeralPort_allocates hrange address
    have hrange' := hrange.step (.getEphemeralPort address)
    unfold CPortmap.apply at hrange'
    dsimp only at hrange' ⊢
    generalize s.m_portmap.getEphemeralPort address = result at hallocates hrange' ⊢
    cases hallocates with
    | port port hephemeral hfree =>
      have hne : port ≠ 0 := by
        rintro rfl
        exact absurd hephemeral.1 (by decide)
      rw [if_neg hne]
      exact .registered _ address number channel port _ rfl hobject hserving hfree hrange'
    | full howned => exact .unchanged _ trivial
  | take address =>
    obtain ⟨⟨number, channel⟩, hchannel, hrest⟩ := Option.bind_eq_some_iff.mp h
    obtain ⟨hobject, -⟩ := channelIn_eq_some.mp hchannel
    dsimp only at hrest
    cases hque : channel.m_applicationQueue.m_que with
    | nil =>
      rw [hque] at hrest
      cases hrest
    | cons item rest =>
      rw [hque] at hrest
      obtain rfl := Option.some.inj hrest
      exact .taken address number channel item rest hobject hque
  | hungUp address =>
    obtain ⟨-, -, rfl⟩ := Option.map_eq_some_iff.mp h
    exact .hungUp address
  | finished address =>
    obtain ⟨⟨number, channel⟩, hchannel, rfl⟩ := Option.map_eq_some_iff.mp h
    obtain ⟨hobject, hphase⟩ := channelIn_eq_some.mp hchannel
    exact .finished address number channel hobject hphase
  | joined address =>
    obtain ⟨⟨number, channel⟩, hchannel, rfl⟩ := Option.map_eq_some_iff.mp h
    obtain ⟨hobject, hphase⟩ := channelIn_eq_some.mp hchannel
    exact .joined address number channel hobject hphase
  | looked capsule =>
    unfold step at h
    dsimp only at h
    split_ifs at h with _ hports
    · obtain rfl := Option.some.inj h
      exact .looked host capsule hports
    · obtain rfl := Option.some.inj h
      exact .unchanged _ trivial
  | pushed terminated =>
    obtain ⟨⟨address, item⟩, hdsque, hrest⟩ := Option.bind_eq_some_iff.mp h
    obtain ⟨⟨number, channel⟩, hobject, rfl⟩ := Option.map_eq_some_iff.mp hrest
    exact .pushed terminated address item number channel hdsque hobject

/-! ## Who owns a port -/

/-- What holds between two actions. -/
structure Inv (s : ApiServer α) : Prop where
  range : s.m_portmap.InRange
  sound : s.mThreads.Sound
  /-- A port belongs to a channel that serves, and that has registered the port itself. -/
  owner : ∀ port address, s.m_portmap.getPortQueue port = some address →
    ∃ channel, s.mThreads.objects address = some (s.registrants port, channel) ∧
      channel.phase = .serving
  looked : ∀ address item, s.dsque = some (address, item) → s.mThreads.Names address item.owner

omit [DecidableEq α] in
/-- Without channels no port has an owner. -/
theorem inv_create : (create : ApiServer α).Inv := by
  refine ⟨?_, Lifetimes.sound_empty, fun port address h => ?_, fun address item h => ?_⟩
  · change 40000 ≤ beginEphemeralPort.toNat ∧ beginEphemeralPort.toNat ≤ 65535
    rw [CPortmap.toNat_beginEphemeralPort]
    omega
  · cases h
  · cases h

/-- A change to a channel that goes on serving leaves the ports to their owners. -/
theorem Inv.modify {s : ApiServer α} (h : s.Inv) (address : α) (q : CProducerConsumer Addressed)
    (dsque : Option (α × Addressed)) (hdsque : ∀ entry, dsque = some entry → s.dsque = some entry)
    (running : Bool) (written taken : List (ℕ × Addressed)) :
    Inv { s with
      mThreads := s.mThreads.modify address (setQueue q)
      dsque := dsque
      running := running
      written := written
      taken := taken } := by
  refine ⟨h.range, h.sound.modify _, fun port other hport => ?_, fun other item hlooked => ?_⟩
  · obtain ⟨channel, hobject, hserving⟩ := h.owner port other hport
    refine ⟨_, Lifetimes.objects_modify.mpr ⟨channel, hobject, rfl⟩, ?_⟩
    split_ifs
    · exact hserving
    · exact hserving
  · exact (h.looked other item (hdsque _ hlooked)).modify _

omit [DecidableEq α] in
/-- A thread that has stopped serving owns no port, so it may go on as it likes. -/
theorem Inv.other {s : ApiServer α} (h : s.Inv) {address : α}
    (hnone : ∀ port, s.m_portmap.getPortQueue port ≠ some address)
    {mThreads : Lifetimes α CNodeServiceChannel} (hsound : mThreads.Sound)
    (hobjects : ∀ other entry, other ≠ address → s.mThreads.objects other = some entry →
      mThreads.objects other = some entry)
    (hnames : ∀ other number, s.mThreads.Names other number → mThreads.Names other number) :
    Inv { s with mThreads := mThreads } := by
  refine ⟨h.range, hsound, fun port other hport => ?_, fun other item hlooked => ?_⟩
  · obtain ⟨channel, hobject, hserving⟩ := h.owner port other hport
    have hne : other ≠ address := by
      rintro rfl
      exact hnone port hport
    exact ⟨channel, hobjects other _ hne hobject, hserving⟩
  · exact hnames other _ (h.looked other item hlooked)

omit [DecidableEq α] in
/-- The channel at an address that owns a port serves. -/
theorem Inv.not_owner {s : ApiServer α} (h : s.Inv) {address : α} {number : ℕ}
    {channel : CNodeServiceChannel} (hobject : s.mThreads.objects address = some (number, channel))
    (hphase : channel.phase ≠ .serving) (port : UInt16) :
    s.m_portmap.getPortQueue port ≠ some address := by
  intro hport
  obtain ⟨serving, hserves, hserving⟩ := h.owner port address hport
  rw [hobject] at hserves
  cases hserves
  exact hphase hserving

/-- Every action keeps the invariant. -/
theorem Inv.step {host : ByteOrder} {s s' : ApiServer α} {action : Action α} (h : s.Inv)
    (hstep : s.step host action = some s') : s'.Inv := by
  cases does_of_step h.range hstep with
  | accepted address mThreads hmake =>
    obtain ⟨hfree, -, -, hobjects⟩ := Lifetimes.objects_make hmake
    have hnone : ∀ port, s.m_portmap.getPortQueue port ≠ some address := by
      intro port hport
      obtain ⟨channel, hobject, -⟩ := h.owner port address hport
      rw [hfree] at hobject
      cases hobject
    exact h.other hnone (h.sound.make hmake).1
      (fun other entry _ hentry => (hobjects other _ _).mpr (Or.inr hentry))
      fun other number hnames => hnames.make hmake
  | registered _ address number channel port ephemeralPort haction hobject hserving hfree hrange =>
    refine ⟨hrange, h.sound, fun other owner howner => ?_, h.looked⟩
    rw [CPortmap.getPortQueue_insert] at howner
    dsimp only
    by_cases hother : other = port
    · rw [if_pos hother] at howner
      obtain rfl := Option.some.inj howner
      rw [hother, Function.update_self]
      exact ⟨channel, hobject, hserving⟩
    · rw [if_neg hother] at howner
      rw [Function.update_of_ne hother]
      exact h.owner other owner howner
  | unchanged => exact h
  | taken address number channel item rest hobject hque =>
    exact h.modify address _ s.dsque (fun _ => id) s.running s.written _
  | hungUp address =>
    refine ⟨h.range, h.sound.modify _, fun port other hport => ?_,
      fun other item hlooked => (h.looked other item hlooked).modify _⟩
    dsimp only at hport ⊢
    rw [CPortmap.getPortQueue_freePorts] at hport
    split_ifs at hport with hown
    obtain ⟨channel, hobject, hserving⟩ := h.owner port other hport
    have hne : other ≠ address := by
      rintro rfl
      exact hown hport
    refine ⟨channel, Lifetimes.objects_modify.mpr ⟨channel, hobject, ?_⟩, hserving⟩
    rw [if_neg hne]
  | finished address number channel hobject hphase =>
    refine h.other (h.not_owner hobject (by rw [hphase]; decide)) (h.sound.modify _)
      (fun other entry hne hentry => ?_) fun other number hnames => hnames.modify _
    refine Lifetimes.objects_modify.mpr ⟨entry.2, hentry, ?_⟩
    rw [if_neg hne]
  | joined address number channel hobject hphase =>
    obtain ⟨-, -, hobjects⟩ := Lifetimes.objects_delete hobject
    exact h.other (h.not_owner hobject (by rw [hphase]; decide)) h.sound.delete
      (fun other entry hne hentry => (hobjects other _ _).mpr ⟨hne, hentry⟩)
      fun other number hnames => hnames.delete
  | looked host' capsule hports =>
    refine ⟨h.range, h.sound, h.owner, fun address item hlooked => ?_⟩
    obtain ⟨owner, howner, hentry⟩ := Option.map_eq_some_iff.mp hlooked
    cases hentry
    obtain ⟨channel, hobject, -⟩ := h.owner _ _ howner
    exact h.sound.names _ _ _ hobject
  | pushed terminated address item number channel hdsque hobject =>
    exact h.modify address _ none (fun _ hnone => nomatch hnone) _ _ s.taken

/-- The invariant holds after every run. -/
theorem inv_of_run {host : ByteOrder} {actions : List (Action α)} {s : ApiServer α}
    (hrun : Execution.run (step host) create actions = some s) : s.Inv :=
  Execution.run_preserves Inv (fun h hstep => h.step hstep) inv_create hrun

/-- A port that has an owner after an action was free and is registered by this action, or had
the owner before, whose channel goes on serving. -/
theorem Inv.owner_step {host : ByteOrder} {s s' : ApiServer α} {action : Action α} (h : s.Inv)
    (hstep : s.step host action = some s') {port : UInt16} {address : α}
    (hport : s'.m_portmap.getPortQueue port = some address) :
    action.Registers address port ∧ s.m_portmap.getPortQueue port = none ∨
      s.m_portmap.getPortQueue port = some address ∧ ¬action.Ends address := by
  have hserves := h.owner port address
  cases does_of_step h.range hstep with
  | accepted other mThreads hmake =>
    refine Or.inr ⟨hport, ?_⟩
    rintro rfl
    obtain ⟨channel, hobject, -⟩ := hserves hport
    rw [(Lifetimes.objects_make hmake).1] at hobject
    cases hobject
  | registered _ owner number channel requested ephemeralPort haction hobject hserving hfree =>
    dsimp only at hport
    rw [CPortmap.getPortQueue_insert] at hport
    split_ifs at hport with hrequested
    · obtain rfl := Option.some.inj hport
      subst hrequested
      exact Or.inl ⟨haction, hfree⟩
    · refine Or.inr ⟨hport, ?_⟩
      cases action <;> simp_all [Action.Registers, Action.Ends]
  | unchanged _ haction =>
    refine Or.inr ⟨hport, ?_⟩
    cases action <;> simp_all [Action.Asks, Action.Ends]
  | taken other => exact Or.inr ⟨hport, id⟩
  | hungUp other =>
    dsimp only at hport
    rw [CPortmap.getPortQueue_freePorts] at hport
    split_ifs at hport with hown
    refine Or.inr ⟨hport, ?_⟩
    rintro rfl
    exact hown hport
  | finished other number channel hobject hphase =>
    refine Or.inr ⟨hport, ?_⟩
    rintro rfl
    exact h.not_owner hobject (by rw [hphase]; decide) port hport
  | joined other number channel hobject hphase =>
    refine Or.inr ⟨hport, ?_⟩
    rintro rfl
    exact h.not_owner hobject (by rw [hphase]; decide) port hport
  | looked host' capsule hports => exact Or.inr ⟨hport, id⟩
  | pushed terminated other item number channel hdsque hobject => exact Or.inr ⟨hport, id⟩

/-- The action takes the port, which was free, for the channel at the address. -/
structure Took (host : ByteOrder) (s : ApiServer α) (action : Action α) (port : UInt16)
    (address : α) : Prop where
  registers : action.Registers address port
  free : s.m_portmap.getPortQueue port = none
  owned : ∃ s', s.step host action = some s' ∧ s'.m_portmap.getPortQueue port = some address

/-- Since some action that took it, the port belongs to what is at the address. -/
def Since (host : ByteOrder) (past : List (Action α)) (port : UInt16) (address : α) : Prop :=
  ∃ before action after s, past = before ++ action :: after ∧
    Execution.run (step host) create before = some s ∧ s.Took host action port address ∧
    ∀ later ∈ after, ¬later.Ends address

/-- An action that leaves the channel at the address serving leaves its ports with it. -/
theorem Since.concat {host : ByteOrder} {past : List (Action α)} {port : UInt16} {address : α}
    (h : Since host past port address) {action : Action α} (haction : ¬action.Ends address) :
    Since host (past ++ [action]) port address := by
  obtain ⟨before, register, after, s, rfl, hbefore, htook, hafter⟩ := h
  refine ⟨before, register, after ++ [action], s, ?_, hbefore, htook, ?_⟩
  · rw [List.append_assoc, List.cons_append]
  · rw [List.forall_mem_append]
    exact ⟨hafter, by simpa using haction⟩

/-- Every port has been with its owner since it was registered. -/
structure History (host : ByteOrder) (past : List (Action α)) (s : ApiServer α) : Prop where
  run : Execution.run (step host) create past = some s
  inv : s.Inv
  since : ∀ port address, s.m_portmap.getPortQueue port = some address →
    Since host past port address

/-- The history goes on with an action: what has an owner afterwards is taken by the action, or
was taken before and is not given up by it. -/
theorem History.step {host : ByteOrder} {past : List (Action α)} {s s' : ApiServer α}
    {action : Action α} (h : History host past s) (hstep : s.step host action = some s') :
    History host (past ++ [action]) s' := by
  refine ⟨?_, h.inv.step hstep, fun port address hport => ?_⟩
  · exact (Execution.run_append_eq_some _).mpr ⟨s, h.run, Execution.run_single hstep⟩
  rcases h.inv.owner_step hstep hport with ⟨hregisters, hfree⟩ | ⟨hbefore, hgoes⟩
  · have htook : s.Took host action port address := ⟨hregisters, hfree, s', hstep, hport⟩
    exact ⟨past, action, [], s, rfl, h.run, htook, fun _ hnone => nomatch hnone⟩
  · exact (h.since port address hbefore).concat hgoes

/-- Whatever the applications, the server and the router do: a port that has an owner was
registered, when it was free, for a channel that still serves its application. The address did
not change hands in between. -/
theorem port_owner_serves {host : ByteOrder} {actions : List (Action α)} {s : ApiServer α}
    (hrun : Execution.run (step host) create actions = some s) {port : UInt16} {address : α}
    (hport : s.m_portmap.getPortQueue port = some address) :
    (∃ channel, s.mThreads.objects address = some (s.registrants port, channel) ∧
      channel.phase = .serving) ∧ Since host actions port address := by
  refine ⟨(inv_of_run hrun).owner port address hport, ?_⟩
  have hcreate : History host [] (create : ApiServer α) :=
    ⟨rfl, inv_create, fun _ _ hnone => nomatch hnone⟩
  have hhistory : History host ([] ++ actions) s :=
    Execution.run_history (fun h hstep => h.step hstep) hcreate hrun
  exact hhistory.since port address hport

/-- An application connects, registers ports and hangs up, and the next one gets the same
address. -/
def reusedAddress : List (Action Bool) :=
  [.accepted false, .registerPort false 80, .getEphemeralPort false, .hungUp false,
    .finished false, .joined false, .accepted false, .registerPort false 81]

/-- The port of the channel that is gone is free, the one registered later belongs to the new
channel. -/
theorem port_owner_serves_reused :
    ∃ s, Execution.run (step .bigEndian) create reusedAddress = some s ∧
      s.m_portmap.getPortQueue 80 = none ∧ s.m_portmap.getPortQueue 81 = some false ∧
      (∃ channel, s.mThreads.objects false = some (s.registrants 81, channel) ∧
        channel.phase = .serving) ∧ Since .bigEndian reusedAddress 81 false := by
  have hsample : (Execution.run (step .bigEndian) create reusedAddress).any (fun s =>
      s.m_portmap.getPortQueue 80 = none ∧ s.m_portmap.getPortQueue 81 = some false) = true := by
    decide +kernel
  obtain ⟨s, hrun, h⟩ := (Option.any_eq_true _ _).mp hsample
  obtain ⟨hfree, howner⟩ := of_decide_eq_true h
  exact ⟨s, hrun, hfree, howner, port_owner_serves hrun howner⟩

/-- The router is not about to push to a channel that has been deleted since it looked. -/
def Fresh (s : ApiServer α) : Action α → Prop
  | .pushed _ => ∀ address item, s.dsque = some (address, item) →
      item.owner ∉ s.mThreads.deleted
  | _ => True

/-- What has been pushed to the channel for which it was looked up. -/
def Right (entries : List (ℕ × Addressed)) : Prop := ∀ entry ∈ entries, entry.2.owner = entry.1

omit [DecidableEq α] in
/-- A push goes to the right channel exactly if that has not been deleted. -/
theorem Inv.pushed_iff {s : ApiServer α} (h : s.Inv) {address : α} {item : Addressed} {number : ℕ}
    {channel : CNodeServiceChannel} (hdsque : s.dsque = some (address, item))
    (hobject : s.mThreads.objects address = some (number, channel)) :
    item.owner = number ↔ item.owner ∉ s.mThreads.deleted := by
  rw [← (h.looked address item hdsque).here_iff h.sound, hobject]
  constructor
  · rintro rfl
    exact ⟨channel, rfl⟩
  · rintro ⟨x, hx⟩
    cases hx
    rfl

/-- An action keeps what has been pushed right exactly if it is no late push. -/
theorem written_step {host : ByteOrder} {s s' : ApiServer α} {action : Action α} (h : s.Inv)
    (hstep : s.step host action = some s') :
    Right s'.written ↔ Right s.written ∧ s.Fresh action := by
  cases does_of_step h.range hstep with
  | pushed terminated address item number channel hdsque hobject =>
    have hfresh : s.Fresh (.pushed terminated) ↔ item.owner ∉ s.mThreads.deleted := by
      simp [Fresh, hdsque]
    unfold Right
    rw [hfresh, ← h.pushed_iff hdsque hobject, List.forall_mem_append]
    simp
  | registered action => cases action <;> simp_all [Fresh, Action.Registers]
  | unchanged action => cases action <;> simp_all [Fresh, Action.Asks]
  | accepted | taken | hungUp | finished | joined | looked => simp [Fresh]

/-- After a run everything pushed went to the right channel exactly if no push was late. -/
theorem written_right_iff {host : ByteOrder} {actions : List (Action α)} {s s' : ApiServer α}
    (h : s.Inv) (hrun : Execution.run (step host) s actions = some s') :
    Right s'.written ↔ Right s.written ∧ Execution.Meets (step host) Fresh s actions := by
  induction actions generalizing s with
  | nil =>
    obtain rfl := Option.some.inj hrun
    exact (and_iff_left trivial).symm
  | cons action actions ih =>
    obtain ⟨s₁, hfirst, hrest⟩ := (Execution.run_cons_eq_some _).mp hrun
    rw [ih (h.step hfirst) hrest, written_step h hfirst, and_assoc]
    refine and_congr_right fun _ => and_congr_right fun _ => ⟨fun hmeets s₂ hs₂ => ?_, ?_⟩
    · obtain rfl := Option.some.inj (hfirst.symm.trans hs₂)
      exact hmeets
    · exact fun hmeets => hmeets s₁ hfirst

/-- The queue of a channel as the node sees it. -/
def capsules (q : CProducerConsumer Addressed) : CProducerConsumer CCapsule :=
  ⟨q.m_maxQueueSize, q.m_que.map Addressed.capsule⟩

/-- The node as its router sees it. -/
def toNode (m_interfaces : List Interfaces.Line) (s : ApiServer α) : CNode α where
  m_interfaces := m_interfaces
  m_portmap := s.m_portmap
  applicationQueues address :=
    ((s.mThreads.objects address).map fun entry => capsules entry.2.m_applicationQueue).getD
      (.create appQueMaxLen)
  running := s.running

/-- A push looks at the number of items only. -/
theorem capsules_try_pushNow (item : Addressed) (terminated : Bool)
    (q : CProducerConsumer Addressed) :
    (capsules q).try_pushNow item.capsule terminated =
      ((q.try_pushNow item terminated).1, capsules (q.try_pushNow item terminated).2) := by
  have hfull : (capsules q).isFull = q.isFull := by
    unfold capsules CProducerConsumer.isFull
    rw [List.length_map]
  unfold CProducerConsumer.try_pushNow
  rw [hfull]
  split_ifs
  · rfl
  · rfl
  · unfold capsules
    rw [List.map_append]
    rfl

/-- In the view of the node only the queue at the address changes. -/
theorem toNode_modify (m_interfaces : List Interfaces.Line) {s : ApiServer α} {address : α}
    {number : ℕ} {channel : CNodeServiceChannel}
    (hobject : s.mThreads.objects address = some (number, channel))
    (q : CProducerConsumer Addressed) (other : α) :
    (((s.mThreads.modify address (setQueue q)).objects other).map fun entry =>
        capsules entry.2.m_applicationQueue).getD (.create appQueMaxLen) =
      Function.update (toNode m_interfaces s).applicationQueues address (capsules q) other := by
  unfold Lifetimes.modify toNode
  dsimp only
  by_cases hother : other = address
  · rw [hother, Function.update_self, Function.update_self, hobject]
    rfl
  · rw [Function.update_of_ne hother, Function.update_of_ne hother]

/-- What a push does, if the channel is there. -/
theorem step_pushed {s : ApiServer α} {address : α} {item : Addressed} {number : ℕ}
    {channel : CNodeServiceChannel} (hdsque : s.dsque = some (address, item))
    (hobject : s.mThreads.objects address = some (number, channel)) (host : ByteOrder)
    (terminated : Bool) :
    s.step host (.pushed terminated) = some { s with
      mThreads := s.mThreads.modify address
        (setQueue (channel.m_applicationQueue.try_pushNow item terminated).2)
      dsque := none
      running := (channel.m_applicationQueue.try_pushNow item terminated).1 != -1
      written := s.written ++ [(number, item)] } := by
  rw [step, hdsque, Option.bind_some]
  dsimp only
  rw [hobject, Option.map_some]

/-- Without other actions in between, the router's look and its push are its iteration on the
capsule. -/
theorem handle_toNode {host : ByteOrder} {s : ApiServer α} (h : s.Inv) (hrunning : s.running = true)
    (hidle : s.dsque = none) (m_interfaces : List Interfaces.Line) {capsule : CCapsule}
    (hreached : (s.toNode m_interfaces).destinationReached capsule = true)
    (hports : (capsule.getPortsDS host 0 0).1 = true) (terminated : Bool)
    (before : ℕ → List (CNode.Event α)) :
    ∃ s', Execution.run (step host) s (.looked capsule ::
        ((s.m_portmap.getPortQueue (capsule.getPortsDS host 0 0).2.1).map fun _ =>
          Action.pushed terminated).toList) = some s' ∧
      (s.toNode m_interfaces).handle host capsule (fun _ => terminated) before =
        some ⟨s'.toNode m_interfaces, []⟩ := by
  have hlooked : s.step host (.looked capsule) = some { s with
      dsque := (s.m_portmap.getPortQueue (capsule.getPortsDS host 0 0).2.1).map fun address =>
        (address, ⟨capsule, s.registrants (capsule.getPortsDS host 0 0).2.1⟩) } := by
    have hready : s.running = true ∧ s.dsque.isNone = true := by simp [hrunning, hidle]
    unfold step
    dsimp only
    rw [if_pos hready, if_pos hports]
  cases howner : s.m_portmap.getPortQueue (capsule.getPortsDS host 0 0).2.1 with
  | none =>
    rw [howner] at hlooked
    have hnone : (s.toNode m_interfaces).m_portmap.getPortQueue
        (capsule.getPortsDS host 0 0).2.1 = none := howner
    refine ⟨_, Execution.run_single hlooked, ?_⟩
    rw [CNode.handle, if_pos hreached]
    dsimp only
    rw [if_pos hports, hnone]
    rfl
  | some address =>
    have hsome : (s.toNode m_interfaces).m_portmap.getPortQueue
        (capsule.getPortsDS host 0 0).2.1 = some address := howner
    obtain ⟨channel, hobject, -⟩ := h.owner _ _ howner
    rw [howner] at hlooked
    let looked : ApiServer α := { s with
      dsque := some (address, ⟨capsule, s.registrants (capsule.getPortsDS host 0 0).2.1⟩) }
    have hpushed := Execution.run_single
      (@step_pushed _ _ looked _ _ _ _ rfl hobject host terminated)
    refine ⟨_, (Execution.run_cons_eq_some _).mpr ⟨looked, hlooked, hpushed⟩, ?_⟩
    have hqueue : (s.toNode m_interfaces).applicationQueues address =
        capsules channel.m_applicationQueue := by
      unfold toNode
      dsimp only
      rw [hobject]
      rfl
    have hpush := capsules_try_pushNow
      ⟨capsule, s.registrants (capsule.getPortsDS host 0 0).2.1⟩ terminated
      channel.m_applicationQueue
    rw [CNode.handle, if_pos hreached]
    dsimp only at hpush ⊢
    rw [if_pos hports, hsome]
    dsimp only
    rw [hqueue, hpush]
    unfold toNode
    dsimp only
    congr 3
    funext other
    exact (toNode_modify m_interfaces hobject _ other).symm

/-! ## What applications take -/

/-- The items that some entries have for a channel. -/
def itemsOf (number : ℕ) (entries : List (ℕ × Addressed)) : List Addressed :=
  entries.filterMap fun entry => if entry.1 = number then some entry.2 else none

/-- The items of a channel, with one more entry. -/
theorem itemsOf_concat (number : ℕ) (entries : List (ℕ × Addressed)) (entry : ℕ × Addressed) :
    itemsOf number (entries ++ [entry]) =
      itemsOf number entries ++ if entry.1 = number then [entry.2] else [] := by
  unfold itemsOf
  rw [List.filterMap_append]
  split_ifs with h <;> simp [h]

/-- What has been taken from a channel and what is left in its queue was pushed to it, in this
order. -/
structure Queued (s : ApiServer α) : Prop where
  taken : ∀ number, (itemsOf number s.taken).Sublist (itemsOf number s.written)
  queue : ∀ address number channel, s.mThreads.objects address = some (number, channel) →
    (itemsOf number s.taken ++ channel.m_applicationQueue.m_que).Sublist (itemsOf number s.written)

omit [DecidableEq α] in
/-- At first nothing has been pushed. -/
theorem queued_create : (create : ApiServer α).Queued :=
  ⟨fun _ => List.Sublist.refl _, fun _ _ _ h => nomatch h⟩

/-- A new phase of a channel leaves its queue alone. -/
theorem Queued.setPhase {s : ApiServer α} (h : s.Queued) (address : α) (phase : Phase)
    (m_portmap : CPortmap α) :
    Queued { s with
      m_portmap := m_portmap
      mThreads := s.mThreads.modify address (ApiServer.setPhase phase) } := by
  refine ⟨h.taken, fun other number channel hobject => ?_⟩
  obtain ⟨before, hbefore, rfl⟩ := Lifetimes.objects_modify.mp hobject
  have hqueue := h.queue other number before hbefore
  split_ifs
  · exact hqueue
  · exact hqueue

/-- What an application takes is the first item of the queue. -/
theorem Queued.take {s : ApiServer α} (h : s.Queued) (hinv : s.Inv) {address : α} {number : ℕ}
    {channel : CNodeServiceChannel} {item : Addressed} {rest : List Addressed}
    (hobject : s.mThreads.objects address = some (number, channel))
    (hque : channel.m_applicationQueue.m_que = item :: rest) :
    Queued { s with
      mThreads := s.mThreads.modify address
        (setQueue { channel.m_applicationQueue with m_que := rest })
      taken := s.taken ++ [(number, item)] } := by
  have hmoved : (itemsOf number s.taken ++ [item] ++ rest).Sublist (itemsOf number s.written) := by
    have hqueue := h.queue address number channel hobject
    rwa [hque, List.append_cons] at hqueue
  constructor
  · intro other
    dsimp only
    rw [itemsOf_concat]
    dsimp only
    split_ifs with hother
    · exact hother ▸ (List.sublist_append_left _ rest).trans hmoved
    · rw [List.append_nil]
      exact h.taken other
  · intro other n c hc
    obtain ⟨before, hbefore, rfl⟩ := Lifetimes.objects_modify.mp hc
    dsimp only
    rw [itemsOf_concat]
    dsimp only
    by_cases hother : other = address
    · subst hother
      rw [hobject] at hbefore
      cases hbefore
      rw [if_pos rfl, if_pos rfl]
      exact hmoved
    · have hne : number ≠ n := by
        rintro rfl
        exact hother ((hinv.sound.names _ _ _ hobject).2 _ _ hbefore)
      rw [if_neg hother, if_neg hne, List.append_nil]
      exact h.queue other n before hbefore

/-- A push puts the item at the end of the queue or nothing. -/
theorem sublist_try_pushNow (item : Addressed) (terminated : Bool)
    (q : CProducerConsumer Addressed) :
    (q.try_pushNow item terminated).2.m_que.Sublist (q.m_que ++ [item]) := by
  unfold CProducerConsumer.try_pushNow
  split_ifs
  · exact List.sublist_append_left _ _
  · exact List.sublist_append_left _ _
  · exact List.Sublist.refl _

/-- What is pushed comes behind everything pushed before. -/
theorem Queued.push {s : ApiServer α} (h : s.Queued) {address : α} {number : ℕ}
    {channel : CNodeServiceChannel} (item : Addressed) (terminated : Bool)
    (hobject : s.mThreads.objects address = some (number, channel))
    (dsque : Option (α × Addressed)) (running : Bool) :
    Queued { s with
      mThreads := s.mThreads.modify address
        (setQueue (channel.m_applicationQueue.try_pushNow item terminated).2)
      dsque := dsque
      running := running
      written := s.written ++ [(number, item)] } := by
  have hgrows : ∀ n, (itemsOf n s.written).Sublist (itemsOf n (s.written ++ [(number, item)])) := by
    intro n
    rw [itemsOf_concat]
    exact List.sublist_append_left _ _
  constructor
  · exact fun n => (h.taken n).trans (hgrows n)
  · intro other n c hc
    obtain ⟨before, hbefore, rfl⟩ := Lifetimes.objects_modify.mp hc
    by_cases hother : other = address
    · subst hother
      rw [hobject] at hbefore
      cases hbefore
      rw [if_pos rfl, itemsOf_concat, if_pos rfl]
      have hqueue := (h.queue other number channel hobject).append_right [item]
      rw [List.append_assoc] at hqueue
      exact ((sublist_try_pushNow item terminated _).append_left _).trans hqueue
    · rw [if_neg hother]
      exact (h.queue other n before hbefore).trans (hgrows n)

/-- Every action keeps the queues in order. -/
theorem Queued.step {host : ByteOrder} {s s' : ApiServer α} {action : Action α} (h : s.Queued)
    (hinv : s.Inv) (hstep : s.step host action = some s') : s'.Queued := by
  cases does_of_step hinv.range hstep with
  | accepted address mThreads hmake =>
    obtain ⟨-, -, -, hobjects⟩ := Lifetimes.objects_make hmake
    refine ⟨h.taken, fun other number channel hobject => ?_⟩
    rcases (hobjects other number channel).mp hobject with ⟨-, -, rfl⟩ | hold
    · have hempty : CNodeServiceChannel.create.m_applicationQueue.m_que = [] := rfl
      rw [hempty, List.append_nil]
      exact h.taken number
    · exact h.queue other number channel hold
  | registered => exact ⟨h.taken, h.queue⟩
  | unchanged => exact h
  | taken address number channel item rest hobject hque => exact h.take hinv hobject hque
  | hungUp address => exact h.setPhase address .freed _
  | finished address => exact h.setPhase address .finished s.m_portmap
  | joined address number channel hobject =>
    obtain ⟨-, -, hobjects⟩ := Lifetimes.objects_delete hobject
    refine ⟨h.taken, fun other n c hc => ?_⟩
    exact h.queue other n c ((hobjects other n c).mp hc).2
  | looked => exact ⟨h.taken, h.queue⟩
  | pushed terminated address item number channel hdsque hobject =>
    exact h.push item terminated hobject none _

/-- What an application takes was pushed to its channel, in this order and at most once. It was
looked up for this channel in all runs without a push to a channel that has been deleted since
the router looked, and in no others. -/
theorem capsules_reach_owner {host : ByteOrder} {actions : List (Action α)} {s : ApiServer α}
    (hrun : Execution.run (step host) create actions = some s) :
    (∀ number, (itemsOf number s.taken).Sublist (itemsOf number s.written)) ∧
      (Right s.written ↔ Execution.Meets (step host) Fresh create actions) := by
  have hqueued := Execution.run_preserves (fun s => s.Inv ∧ s.Queued)
    (fun h hstep => ⟨h.1.step hstep, h.2.step h.1 hstep⟩) ⟨inv_create, queued_create⟩ hrun
  refine ⟨hqueued.2.taken, (written_right_iff inv_create hrun).trans (and_iff_right ?_)⟩
  exact fun _ hnone => nomatch hnone

/-- A capsule for port 80. -/
def portCapsule : CCapsule where
  flagDX := false
  flagDS := true
  interfaceAddress := .replicate sanAddressSize 0
  srcAddress := .replicate sanAddressSize 1
  dstAddress := .replicate sanAddressSize 2
  appId := .replicate sanHashSize 0
  hop := 5
  data := [0, 80, 0, 1]

/-- The channel is deleted between the router's look and its push, and another application
connects in between. -/
def latePush : List (Action Bool) :=
  [.accepted false, .registerPort false 80, .looked portCapsule, .hungUp false, .finished false,
    .joined false, .accepted false, .pushed false, .take false]

/-- The second application takes a capsule for a port that it has not registered. -/
theorem capsules_reach_owner_late :
    ∃ s, Execution.run (step .bigEndian) create latePush = some s ∧
      s.taken = [(1, ⟨portCapsule, 0⟩)] ∧
      (∀ number, (itemsOf number s.taken).Sublist (itemsOf number s.written)) ∧
      (Right s.written ↔ Execution.Meets (step .bigEndian) Fresh create latePush) := by
  have hsample : (Execution.run (step .bigEndian) create latePush).any (fun s =>
      s.taken = [(1, ⟨portCapsule, 0⟩)]) = true := by decide +kernel
  obtain ⟨s, hrun, h⟩ := (Option.any_eq_true _ _).mp hsample
  exact ⟨s, hrun, of_decide_eq_true h, capsules_reach_owner hrun⟩

end ApiServer

end San2.Api
