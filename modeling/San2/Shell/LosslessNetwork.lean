import San2.Shell.LastReply

/-!
# A network that loses nothing

Every capsule of the client reaches the server, which takes a turn with it, and what the
server sends comes back before the timeout. So the session of the client and its last
response decide how a call of `sendReliableMessage` ends.
-/

namespace San2.Shell

open Utils Network DragonSRP

/-- What one try of the client takes from outside: the ways of the two capsules, and what
the server needs in its turn. -/
structure Passage where
  there : Transit
  random : Except DsrpException Bytes
  beyond : UInt8
  getParameter : String → Option Bytes
  object : CCapsule
  back : Transit

/-- The turn of the server. -/
def Passage.turn (passage : Passage) (rxcapsule : CCapsule) : Turn where
  waited := .success rxcapsule
  random := passage.random
  beyond := passage.beyond
  getParameter := passage.getParameter
  sendCapsule := true
  object := passage.object

/-- What the session of the client works with. -/
def Passage.env (passage : Passage) : Environment :=
  ⟨passage.random, passage.beyond, processApplicationDatagram passage.getParameter⟩

/-- The capsules that a session passes to the connector. -/
def ServerEnd.sent (srv : ShellServer) (s : ServerEnd) (a : Arrival) : List Bytes :=
  match StopWaitRx.incommingCapsule srv.platform.host (processDatagram srv a.env) a.sendCapsule
      a.object s.rx (s.session, s.encrypted) a.rxcapsule with
  | none => []
  | some handled => handled.sent

namespace MainLoop

/-- The capsules that the server sends in a turn with a capsule. -/
def sent (srv : ShellServer) (loop : MainLoop) (turn : Turn) (rxcapsule : CCapsule) :
    List Bytes :=
  let (_, _, fromPort) := rxcapsule.getPortsDS srv.platform.host loop.toPort loop.fromPort
  (loop.sman.getSession rxcapsule.srcAddress fromPort).1.sent srv
    ⟨turn.env, turn.sendCapsule, turn.object, rxcapsule⟩

/-- The server after the capsule of a try, if it is still running. -/
def afterTry (srv : ShellServer) (serialized : Bytes) (loop : MainLoop) (passage : Passage) :
    Option MainLoop :=
  (deliver srv.platform.host passage.there serialized).bind fun rxcapsule =>
    loop.step srv (passage.turn rxcapsule)

/-- The capsule that the client gets in a try. -/
def replyTo (srv : ShellServer) (clientHost : ByteOrder) (serialized : Bytes) (loop : MainLoop)
    (passage : Passage) : Option CCapsule :=
  (deliver srv.platform.host passage.there serialized).bind fun rxcapsule =>
    (loop.sent srv (passage.turn rxcapsule) rxcapsule).head?.bind
      (deliver clientHost passage.back)

/-- The server after a number of tries with the same capsule. -/
def afterTries (srv : ShellServer) (serialized : Bytes) (passages : ℕ → Passage)
    (loop : Option MainLoop) : ℕ → Option MainLoop
  | 0 => loop
  | k + 1 => (afterTries srv serialized passages loop k).bind fun loop =>
      loop.afterTry srv serialized (passages k)

/-- The tries of a call of `sendReliableMessage`. -/
def connector (srv : ShellServer) (clientHost : ByteOrder) (serialized : Bytes)
    (passages : ℕ → Passage) (loop : Option MainLoop) (k : ℕ) : Try where
  sendCapsule := true
  waitForCapsule := (afterTries srv serialized passages loop k).bind fun loop =>
    loop.replyTo srv clientHost serialized (passages k)

end MainLoop

namespace StopWaitTx

variable {host : ByteOrder} {tx : StopWaitTx} {connector : ℕ → Try}

end StopWaitTx

namespace SessionManager

/-- What is stored is found. -/
theorem getSession_store {T : Type} (sman : SessionManager T) (address : SanAddress)
    (port : UInt16) (ses : T) :
    ((sman.store address port ses).getSession address port).1 = ses := by
  unfold getSession store
  rw [AList.lookup_insert]

end SessionManager

/-- What a capsule that carries a message of a client looks like at the server. -/
theorem Carries.arrives {address : SanAddress} {dstport port : UInt16} {seq : UInt64}
    {request serialized : Bytes} (h : Carries address dstport port seq request serialized)
    (host : ByteOrder) (transit : Transit) :
    ∃ rxcapsule, deliver host transit serialized = some rxcapsule ∧
      rxcapsule.srcAddress = address ∧
      (∀ toPort fromPort, rxcapsule.getPortsDS host toPort fromPort = (true, dstport, port)) ∧
      ∀ rx : StopWaitRx, rx.m_clientAddress = address → rx.m_clientPort = port →
        rx.parseCapsule host rxcapsule = some (seq, request) := by
  obtain ⟨rxcapsule, hdeliver, haddress, hports, -⟩ := h host transit
  refine ⟨rxcapsule, hdeliver, haddress, fun toPort fromPort => ?_, fun rx hrx hport => ?_⟩
  · unfold CCapsule.getPortsDS at hports ⊢
    split_ifs at hports ⊢ with hDS hdata
    · simp at hports
    · simp at hports
    · exact hports
  · subst hrx hport
    exact h.parseCapsule hdeliver

namespace MainLoop

variable {srv : ShellServer} {serverAddress clientAddress : SanAddress}
  {serverPort clientPort : UInt16} {loop : MainLoop} {s : ServerEnd} {seq : UInt64}
  {request serialized : Bytes}

/-- The session that the server has for a client. -/
def sessionOf (loop : MainLoop) (address : SanAddress) (port : UInt16) : ServerEnd :=
  (loop.sman.getSession address port).1

section Try

variable (hs : loop.sessionOf clientAddress clientPort = s)
  (haddress : s.rx.m_clientAddress = clientAddress) (hport : s.rx.m_clientPort = clientPort)
  (hcarries : Carries clientAddress serverPort clientPort seq request serialized)
  (passage : Passage)

include hs haddress hport hcarries

end Try

/-- A try keeps what is known of the sessions. -/
theorem Remembering.afterTry (h : loop.Remembering srv serverAddress serverPort)
    {passage : Passage} {loop' : MainLoop}
    (hafter : loop.afterTry srv serialized passage = some loop') :
    loop'.Remembering srv serverAddress serverPort := by
  obtain ⟨rxcapsule, -, hstep⟩ := Option.bind_eq_some_iff.mp hafter
  exact h.step hstep

/-- The session of a client, stored or new, serves it and remembers. -/
theorem Remembering.sessionOf (h : loop.Remembering srv serverAddress serverPort)
    (address : SanAddress) (port : UInt16) :
    (loop.sessionOf address port).Serves srv address port ∧
      (loop.sessionOf address port).Remembers serverAddress serverPort :=
  (SessionManager.Every.getSession h address port).1

section Call

variable {tx : StopWaitTx} (h : loop.Remembering srv tx.m_serverAddress tx.m_serverPort)
  (hs : loop.sessionOf tx.m_clientAddress tx.m_clientPort = s) (host : ByteOrder)
  (object : CCapsule) (request : Bytes) (passages : ℕ → Passage)

include h hs

end Call

end MainLoop

end San2.Shell
