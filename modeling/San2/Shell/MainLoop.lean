import Mathlib.Data.List.AList
import San2.Shell.NonceUse
import San2.Shell.SessionAnswers

/-!
# The main loop of the shell server

`shell_server` waits for capsules, looks up the session of the sender's address and port,
or makes one, and passes the capsule to its `incommingCapsule`. When that returns false,
`main` returns and all sessions are gone.
-/

namespace San2.Shell

open Utils Network

/-- `SessionManager`. The timeout is stored and never used. -/
structure SessionManager (T : Type) where
  sessionStorage : AList fun _ : SanAddress × UInt16 => T
  m_createT : SanAddress → UInt16 → T

namespace SessionManager

variable {T : Type}

/-- The constructor. -/
def create (createT : SanAddress → UInt16 → T) : SessionManager T := ⟨∅, createT⟩

/-- The stored object is shared with the caller, who may change it. -/
def store (sman : SessionManager T) (sourceAddress : SanAddress) (sourcePort : UInt16) (ses : T) :
    SessionManager T :=
  { sman with sessionStorage := sman.sessionStorage.insert (sourceAddress, sourcePort) ses }

/-- `getSession` finds the session of an address and port, or makes one where there is none. -/
def getSession (sman : SessionManager T) (sourceAddress : SanAddress) (sourcePort : UInt16) :
    T × SessionManager T :=
  match sman.sessionStorage.lookup (sourceAddress, sourcePort) with
  | some ses => (ses, sman)
  | none =>
    let createdSession := sman.m_createT sourceAddress sourcePort
    (createdSession, sman.store sourceAddress sourcePort createdSession)

/-- Every session that is stored or will be made has a property of its client. -/
structure Every (P : SanAddress → UInt16 → T → Prop) (sman : SessionManager T) : Prop where
  created : ∀ address port, P address port (sman.m_createT address port)
  stored : ∀ address port ses,
    sman.sessionStorage.lookup (address, port) = some ses → P address port ses

variable {P : SanAddress → UInt16 → T → Prop} {sman : SessionManager T}

/-- A manager without sessions satisfies every property of sessions that new ones have. -/
theorem every_create {createT : SanAddress → UInt16 → T}
    (h : ∀ address port, P address port (createT address port)) : Every P (create createT) where
  created := h
  stored address port ses hlookup := by simp [create] at hlookup

/-- Storing a session that has the property keeps it for all. -/
theorem Every.store (h : Every P sman) {address : SanAddress} {port : UInt16} {ses : T}
    (hses : P address port ses) : Every P (sman.store address port ses) where
  created := h.created
  stored address' port' ses' hlookup := by
    unfold SessionManager.store at hlookup
    by_cases hkey : (address', port') = (address, port)
    · rw [hkey, AList.lookup_insert] at hlookup
      obtain ⟨rfl, rfl⟩ := Prod.mk.inj hkey
      exact Option.some.inj hlookup ▸ hses
    · rw [AList.lookup_insert_ne hkey] at hlookup
      exact h.stored address' port' ses' hlookup

/-- The session handed out has the property, and so do all those stored afterwards. -/
theorem Every.getSession (h : Every P sman) (address : SanAddress) (port : UInt16) :
    P address port (sman.getSession address port).1 ∧
      Every P (sman.getSession address port).2 := by
  unfold SessionManager.getSession
  cases hlookup : sman.sessionStorage.lookup (address, port) with
  | some ses => exact ⟨h.stored address port ses hlookup, h⟩
  | none => exact ⟨h.created address port, h.store (h.created address port)⟩

end SessionManager

/-- The results of `waitForCapsule`. -/
inductive WaitForCapsule
  | error
  | invalidResponse
  | capsuleUnpack
  | success (rxcapsule : CCapsule)
  | timeout
  | invokeFailed
  | unknown

/-- One turn of the loop: the result of `waitForCapsule` and what the handling of a capsule
takes from outside. -/
structure Turn where
  waited : WaitForCapsule
  random : Except DragonSRP.DsrpException Bytes
  beyond : UInt8
  getParameter : String → Option Bytes
  sendCapsule : Bool
  object : CCapsule

/-- The sessions of the server work on its connector. -/
def Turn.env (turn : Turn) : Environment :=
  ⟨turn.random, turn.beyond, processApplicationDatagram turn.getParameter⟩

/-- The variables of `main` that live longer than a turn. -/
structure MainLoop where
  toPort : UInt16
  fromPort : UInt16
  sman : SessionManager ServerEnd

/-- How a turn ends. -/
inductive Iteration
  | goesOn (loop : MainLoop)
  | returns (rval : ℤ)
  | fault

namespace MainLoop

/-- The loop begins without sessions; the two ports are not initialized. -/
def start (serverAddress : SanAddress) (srvIntPort toPort fromPort : UInt16) : MainLoop :=
  ⟨toPort, fromPort, .create (ServerEnd.create serverAddress srvIntPort)⟩

/-- The case `SAN2_WAITFORCAPSULE_SUCCESS`. -/
def handle (srv : ShellServer) (loop : MainLoop) (turn : Turn) (rxcapsule : CCapsule) :
    Iteration :=
  let (_, toPort, fromPort) :=
    rxcapsule.getPortsDS srv.platform.host loop.toPort loop.fromPort
  let (ses, sman) := loop.sman.getSession rxcapsule.srcAddress fromPort
  match ses.incommingCapsule srv ⟨turn.env, turn.sendCapsule, turn.object, rxcapsule⟩ with
  | none => .fault
  | some (false, _) => .returns (-6)
  | some (true, ses) => .goesOn ⟨toPort, fromPort, sman.store rxcapsule.srcAddress fromPort ses⟩

/-- The body of the loop. -/
def iterate (srv : ShellServer) (loop : MainLoop) (turn : Turn) : Iteration :=
  match turn.waited with
  | .success rxcapsule => loop.handle srv turn rxcapsule
  | .timeout => .goesOn loop
  | .invalidResponse => .goesOn loop
  | .capsuleUnpack => .goesOn loop
  | .invokeFailed => .returns (-1)
  | .error => .goesOn loop
  | .unknown => .goesOn loop

/-- The loop after a turn, if it is still running. -/
def step (srv : ShellServer) (loop : MainLoop) (turn : Turn) : Option MainLoop :=
  match loop.iterate srv turn with
  | .goesOn loop => some loop
  | .returns _ => none
  | .fault => none

end MainLoop

namespace ServerEnd

/-- The session of a client, as the datagrams of the client have left it. -/
structure Serves (srv : ShellServer) (address : SanAddress) (port : UInt16) (s : ServerEnd) :
    Prop where
  clientAddress : s.rx.m_clientAddress = address
  clientPort : s.rx.m_clientPort = port
  history : ∃ past, Session.History srv past s.session

/-- A new session serves its client. -/
theorem serves_create (srv : ShellServer) (serverAddress : SanAddress) (serverPort : UInt16)
    (address : SanAddress) (port : UInt16) :
    Serves srv address port (create serverAddress serverPort address port) :=
  ⟨rfl, rfl, [], Session.history_create srv⟩

/-- A capsule keeps the session of a server end serving its address and port. -/
theorem Serves.incommingCapsule {srv : ShellServer} {address : SanAddress} {port : UInt16}
    {s s' : ServerEnd} (h : Serves srv address port s) {a : Arrival} {ok : Bool}
    (hcapsule : s.incommingCapsule srv a = some (ok, s')) : Serves srv address port s' := by
  obtain rfl | ⟨request, st, hprocess, -, rfl⟩ := incommingCapsule_eq_some hcapsule
  · exact h
  · obtain ⟨haddress, hport⟩ := after_client srv s a st
    obtain ⟨past, hhistory⟩ := h.history
    have hreceive : s.session.receive srv ⟨a.env, s.rx.m_expectedSeqNum, request⟩ =
        some st.session := Option.map_eq_some_iff.mpr ⟨st, hprocess, rfl⟩
    exact ⟨haddress.trans h.clientAddress, hport.trans h.clientPort, _, hhistory.receive hreceive⟩

/-- A capsule that a session has a message to send for: it has a header, and the session
answers its request if that is the expected one. -/
def Answers (srv : ShellServer) (s : ServerEnd) (env : Environment) (rxcapsule : CCapsule) :
    Prop :=
  let data := rxcapsule.data.drop 4
  let rxseq := CDataPack.unpackUint64 srv.platform.host data 1
  9 ≤ data.length ∧ data.head? = some sof ∧
    (rxseq = s.rx.m_expectedSeqNum → s.session.Answers srv ⟨env, rxseq, data.drop 9⟩)

end ServerEnd

/-- What the node may deliver: it stays connected, takes what is sent, and its capsules
are datagrams with ports. -/
structure Turn.Delivered (turn : Turn) : Prop where
  connected : turn.waited ≠ .invokeFailed
  sends : turn.sendCapsule = true
  datagram : ∀ rxcapsule, turn.waited = .success rxcapsule →
    rxcapsule.flagDS = true ∧ 4 ≤ rxcapsule.data.length

namespace MainLoop

/-- A capsule that the session of its sender, stored or new, answers. -/
def Answers (srv : ShellServer) (loop : MainLoop) (turn : Turn) : Prop :=
  ∀ rxcapsule, turn.waited = .success rxcapsule →
    (loop.sman.getSession rxcapsule.srcAddress
      (CDataPack.unpackUint16 srv.platform.host rxcapsule.data 2)).1.Answers srv turn.env rxcapsule

/-- Every session of the loop serves the client it is stored under. -/
def Inv (srv : ShellServer) (loop : MainLoop) : Prop := loop.sman.Every (ServerEnd.Serves srv)

/-- The invariant of the loop holds at its start. -/
theorem inv_start (srv : ShellServer) (serverAddress : SanAddress)
    (srvIntPort toPort fromPort : UInt16) :
    (start serverAddress srvIntPort toPort fromPort).Inv srv :=
  SessionManager.every_create (ServerEnd.serves_create srv serverAddress srvIntPort)

/-- A turn has a next loop exactly when the iteration goes on. -/
theorem step_eq_some_iff {srv : ShellServer} {loop loop' : MainLoop} {turn : Turn} :
    loop.step srv turn = some loop' ↔ loop.iterate srv turn = .goesOn loop' := by
  unfold step
  cases loop.iterate srv turn with
  | goesOn loop₁ => simp
  | returns rval => simp
  | fault => simp

/-- The call that decides whether a capsule ends the loop. -/
theorem handle_goesOn_iff {srv : ShellServer} {loop loop' : MainLoop} {turn : Turn}
    {rxcapsule : CCapsule} :
    loop.handle srv turn rxcapsule = .goesOn loop' ↔
      let ports := rxcapsule.getPortsDS srv.platform.host loop.toPort loop.fromPort
      let found := loop.sman.getSession rxcapsule.srcAddress ports.2.2
      ∃ ses, found.1.incommingCapsule srv
          ⟨turn.env, turn.sendCapsule, turn.object, rxcapsule⟩ = some (true, ses) ∧
        loop' = ⟨ports.2.1, ports.2.2, found.2.store rxcapsule.srcAddress ports.2.2 ses⟩ := by
  unfold handle
  rcases rxcapsule.getPortsDS srv.platform.host loop.toPort loop.fromPort with
    ⟨ok, toPort, fromPort⟩
  dsimp only
  cases (loop.sman.getSession rxcapsule.srcAddress fromPort).1.incommingCapsule srv
      ⟨turn.env, turn.sendCapsule, turn.object, rxcapsule⟩ with
  | none => simp
  | some returned =>
    obtain ⟨ok, ses⟩ := returned
    cases ok with
    | false => simp
    | true => simp [eq_comm]

/-- What every capsule that a session answers keeps of it, a turn keeps of all sessions. -/
theorem every_step {P : SanAddress → UInt16 → ServerEnd → Prop} {srv : ShellServer}
    (hP : ∀ {address port s s' a}, P address port s →
      ServerEnd.incommingCapsule srv s a = some (true, s') → P address port s')
    {loop loop' : MainLoop} {turn : Turn} (h : loop.sman.Every P)
    (hstep : loop.step srv turn = some loop') : loop'.sman.Every P := by
  rw [step_eq_some_iff, iterate] at hstep
  cases hwaited : turn.waited with
  | success rxcapsule =>
    rw [hwaited] at hstep
    obtain ⟨ses, hcapsule, rfl⟩ := handle_goesOn_iff.mp hstep
    obtain ⟨hfound, hsman⟩ := h.getSession rxcapsule.srcAddress
      (rxcapsule.getPortsDS srv.platform.host loop.toPort loop.fromPort).2.2
    exact hsman.store (hP hfound hcapsule)
  | invokeFailed =>
    rw [hwaited] at hstep
    cases hstep
  | error | invalidResponse | capsuleUnpack | timeout | unknown =>
    rw [hwaited] at hstep
    cases hstep
    exact h

/-- A turn keeps the sessions with their clients. -/
theorem Inv.step {srv : ShellServer} {loop loop' : MainLoop} {turn : Turn} (h : loop.Inv srv)
    (hstep : loop.step srv turn = some loop') : loop'.Inv srv :=
  every_step (fun hserves hcapsule => hserves.incommingCapsule hcapsule) h hstep

/-- A turn with a datagram of the sample client. -/
def sampleTurn (payload : Bytes) : Turn where
  waited := .success <| CCapsule.setDSdata .littleEndian
    ⟨false, true, sampleTx.m_serverAddress, sampleTx.m_clientAddress, sampleTx.m_serverAddress,
      FixedBytes.replicate 20 0, 0, []⟩
    sampleTx.m_serverPort sampleTx.m_clientPort payload
  random := .ok []
  beyond := 0
  getParameter _ := none
  sendCapsule := true
  object := ⟨false, true, sampleTx.m_serverAddress, sampleTx.m_clientAddress,
    sampleTx.m_serverAddress, FixedBytes.replicate 20 0, 0, []⟩

end MainLoop

end San2.Shell
