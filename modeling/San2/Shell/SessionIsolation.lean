import San2.Library.MachineFamily
import San2.Shell.LosslessNetwork

/-!
# What the clients of the server have to do with each other

The server has one session for each source address and port. A capsule is attributed to its
source address and to its source port or, if it has no ports, to the port of the last
capsule that had some, whoever sent that one. Besides that clients do not meet: a session
is what it would be if the capsules attributed to it were all that the server ever
received, and the server runs as long as each of its sessions does.
-/

namespace San2.Shell

open Utils Network DragonSRP MachineFamily

/-- A session goes on after a capsule for which `incommingCapsule` returns true. -/
def ServerEnd.answer (srv : ShellServer) (s : ServerEnd) (a : Arrival) : Option ServerEnd :=
  (s.incommingCapsule srv a).bind fun (ok, s') => if ok then some s' else none

/-- A capsule is answered exactly when handling it returned true. -/
theorem ServerEnd.answer_eq_some {srv : ShellServer} {s s' : ServerEnd} {a : Arrival} :
    s.answer srv a = some s' ↔ s.incommingCapsule srv a = some (true, s') := by
  unfold answer
  rw [Option.bind_eq_some_iff]
  constructor
  · rintro ⟨⟨ok, found⟩, hcapsule, h⟩
    dsimp only at h
    split_ifs at h with hok
    rw [hcapsule, hok, Option.some.inj h]
  · intro hcapsule
    exact ⟨(true, s'), hcapsule, rfl⟩

namespace SessionManager

/-- Storing a session leaves those of every other client. -/
theorem getSession_store_ne {T : Type} (sman : SessionManager T) {address other : SanAddress}
    {port otherPort : UInt16} (hne : (other, otherPort) ≠ (address, port)) (ses : T) :
    ((sman.store address port ses).getSession other otherPort).1 =
      (sman.getSession other otherPort).1 := by
  unfold getSession store
  dsimp only
  rw [AList.lookup_insert_ne hne]
  cases sman.sessionStorage.lookup (other, otherPort) with
  | none => rfl
  | some found => rfl

/-- Looking up a session makes it, and does nothing else. -/
theorem getSession_getSession {T : Type} (sman : SessionManager T) (address other : SanAddress)
    (port otherPort : UInt16) :
    ((sman.getSession address port).2.getSession other otherPort).1 =
      (sman.getSession other otherPort).1 := by
  have hfirst : (sman.getSession address port).2 = sman ∨
      sman.sessionStorage.lookup (address, port) = none ∧ (sman.getSession address port).2 =
        sman.store address port (sman.m_createT address port) := by
    unfold getSession
    cases sman.sessionStorage.lookup (address, port) with
    | none => exact .inr ⟨rfl, rfl⟩
    | some ses => exact .inl rfl
  rcases hfirst with hsame | ⟨hnone, hnew⟩
  · rw [hsame]
  · rw [hnew]
    by_cases hkey : (other, otherPort) = (address, port)
    · obtain ⟨rfl, rfl⟩ := Prod.mk.inj hkey
      rw [getSession_store]
      unfold getSession
      rw [hnone]
    · exact sman.getSession_store_ne hkey _

end SessionManager

namespace MainLoop

/-- The sessions of the server by their clients, those included that have not been made. -/
def sessions (loop : MainLoop) (client : SanAddress × UInt16) : ServerEnd :=
  loop.sessionOf client.1 client.2

/-- The capsules of some turns, with the clients that they are attributed to, if the variables
for the ports begin with the given values. -/
def attributed (srv : ShellServer) :
    UInt16 × UInt16 → List Turn → List ((SanAddress × UInt16) × Arrival)
  | _, [] => []
  | ports, turn :: turns =>
    match turn.waited with
    | .success rxcapsule =>
      let next := (rxcapsule.getPortsDS srv.platform.host ports.1 ports.2).2
      ((rxcapsule.srcAddress, next.2),
        ⟨turn.env, turn.sendCapsule, turn.object, rxcapsule⟩) :: attributed srv next turns
    | _ => attributed srv ports turns

variable {srv : ShellServer} {loop loop' : MainLoop} {turn : Turn}

/-- A turn with a capsule is a step of the session that it is attributed to. -/
theorem step_success {rxcapsule : CCapsule} (hwaited : turn.waited = .success rxcapsule) :
    loop.step srv turn = some loop' ↔
      let next := (rxcapsule.getPortsDS srv.platform.host loop.toPort loop.fromPort).2
      ∃ ses, (loop.sessions (rxcapsule.srcAddress, next.2)).answer srv
          ⟨turn.env, turn.sendCapsule, turn.object, rxcapsule⟩ = some ses ∧
        loop' = ⟨next.1, next.2, (loop.sman.getSession rxcapsule.srcAddress next.2).2.store
          rxcapsule.srcAddress next.2 ses⟩ := by
  rw [step_eq_some_iff]
  unfold iterate
  rw [hwaited]
  simp only [handle_goesOn_iff, ServerEnd.answer_eq_some]
  rfl

/-- Storing a session updates the map of sessions at its client. -/
theorem sessions_store (loop : MainLoop) (ports : UInt16 × UInt16) (address : SanAddress)
    (port : UInt16) (ses : ServerEnd) :
    (MainLoop.mk ports.1 ports.2
      ((loop.sman.getSession address port).2.store address port ses)).sessions =
        Function.update loop.sessions (address, port) ses := by
  funext client
  obtain ⟨other, otherPort⟩ := client
  unfold sessions sessionOf
  rw [Function.update_apply]
  split_ifs with hkey
  · obtain ⟨rfl, rfl⟩ := Prod.mk.inj hkey
    exact SessionManager.getSession_store _ _ _ _
  · rw [SessionManager.getSession_store_ne _ hkey, SessionManager.getSession_getSession]

/-- A turn without a capsule changes nothing, or it is the last. -/
theorem step_without_capsule (hwaited : ∀ rxcapsule, turn.waited ≠ .success rxcapsule) :
    loop.step srv turn = some loop' ↔ turn.waited ≠ .invokeFailed ∧ loop' = loop := by
  rw [step_eq_some_iff]
  unfold iterate
  cases h : turn.waited with
  | success rxcapsule => exact absurd h (hwaited rxcapsule)
  | invokeFailed => simp
  | error | invalidResponse | capsuleUnpack | timeout | unknown => simp [eq_comm]

/-- A turn in which no capsule was taken from the queue gives no client anything. -/
theorem attributed_without_capsule (hwaited : ∀ rxcapsule, turn.waited ≠ .success rxcapsule)
    (ports : UInt16 × UInt16) (turns : List Turn) :
    attributed srv ports (turn :: turns) = attributed srv ports turns := by
  rw [attributed]
  split
  · rename_i rxcapsule h
    exact absurd h (hwaited rxcapsule)
  · rfl

/-- A run of the loop is a run of its sessions over which the node stays connected. -/
theorem run_iff_family {turns : List Turn} {machines : SanAddress × UInt16 → ServerEnd} :
    (∃ loop', Execution.run (MainLoop.step srv) loop turns = some loop' ∧
      loop'.sessions = machines) ↔
    (∀ turn ∈ turns, turn.waited ≠ .invokeFailed) ∧
      Execution.run (MachineFamily.step (ServerEnd.answer srv)) loop.sessions
        (attributed srv (loop.toPort, loop.fromPort) turns) = some machines := by
  induction turns generalizing loop with
  | nil => simp [attributed]
  | cons turn turns ih =>
    simp only [Execution.run_cons_eq_some, List.forall_mem_cons]
    by_cases hcapsule : ∃ rxcapsule, turn.waited = .success rxcapsule
    · obtain ⟨rxcapsule, hwaited⟩ := hcapsule
      have hconnected : turn.waited ≠ .invokeFailed := by
        rw [hwaited]
        nofun
      unfold attributed
      rw [hwaited]
      simp only [Execution.run_cons_eq_some, step_success hwaited]
      constructor
      · rintro ⟨loop', ⟨_, ⟨ses, hanswer, rfl⟩, hrest⟩, hmachines⟩
        obtain ⟨hturns, hfamily⟩ := ih.mp ⟨loop', hrest, hmachines⟩
        rw [sessions_store] at hfamily
        refine ⟨⟨nofun, hturns⟩, _, ?_, hfamily⟩
        unfold MachineFamily.step
        dsimp only
        rw [hanswer, Option.map_some]
      · rintro ⟨⟨-, hturns⟩, machines₁, hstep, hfamily⟩
        obtain ⟨ses, hanswer, rfl⟩ := Option.map_eq_some_iff.mp hstep
        rw [← sessions_store] at hfamily
        obtain ⟨loop', hrest, hmachines⟩ := ih.mpr ⟨hturns, hfamily⟩
        exact ⟨loop', ⟨_, ⟨ses, hanswer, rfl⟩, hrest⟩, hmachines⟩
    · have hwaited : ∀ rxcapsule, turn.waited ≠ .success rxcapsule :=
        fun rxcapsule h => hcapsule ⟨rxcapsule, h⟩
      simp only [step_without_capsule hwaited, attributed_without_capsule hwaited]
      constructor
      · rintro ⟨loop', ⟨_, ⟨hconnected, rfl⟩, hrest⟩, hmachines⟩
        obtain ⟨hturns, hfamily⟩ := ih.mp ⟨loop', hrest, hmachines⟩
        exact ⟨⟨hconnected, hturns⟩, hfamily⟩
      · rintro ⟨⟨hconnected, hturns⟩, hfamily⟩
        obtain ⟨loop', hrest, hmachines⟩ := ih.mpr ⟨hturns, hfamily⟩
        exact ⟨loop', ⟨_, ⟨hconnected, rfl⟩, hrest⟩, hmachines⟩

/-- No session can be told from one that is alone with its capsules, and the server runs
exactly as long as each of these would, if the node stays connected. -/
theorem sessions_isolated (serverAddress : SanAddress) (srvIntPort toPort fromPort : UInt16)
    (turns : List Turn) (ends : SanAddress × UInt16 → ServerEnd) :
    (∃ loop, Execution.run (MainLoop.step srv)
        (start serverAddress srvIntPort toPort fromPort) turns = some loop ∧
      ∀ address port, loop.sessionOf address port = ends (address, port)) ↔
    (∀ turn ∈ turns, turn.waited ≠ .invokeFailed) ∧
      ∀ address port, Execution.run (ServerEnd.answer srv)
        (.create serverAddress srvIntPort address port)
        (inputsOf (address, port) (attributed srv (toPort, fromPort) turns)) =
          some (ends (address, port)) := by
  have hends (loop : MainLoop) : (∀ address port,
      loop.sessionOf address port = ends (address, port)) ↔ loop.sessions = ends := by
    rw [funext_iff, Prod.forall]
    rfl
  simp only [hends, run_iff_family, MachineFamily.run_eq_some_iff, Prod.forall]
  rfl

end MainLoop

end San2.Shell
