import San2.Shell.SessionRuns
import San2.Shell.StopWait

/-!
# A session behind its receiver

The class `Session` of the server derives from `StopWaitRx`: a capsule first passes the
receiver, and a new request goes on to `processDatagram`. A `ServerEnd` is the whole
object. It also keeps, for the argument, what it has encrypted under its present key.
-/

namespace San2.Shell

open Utils Network

/-- The end of the server for one client: the receiver of its stop-and-wait protocol and its
session, with the plaintexts that were encrypted so far and their numbers. -/
structure ServerEnd where
  rx : StopWaitRx
  session : Session
  encrypted : List (UInt64 × Bytes)
  deriving DecidableEq

/-- A capsule as it reaches the server, and what the call takes from outside. -/
structure Arrival where
  env : Environment
  sendCapsule : Bool
  object : CCapsule
  rxcapsule : CCapsule

namespace ServerEnd

/-- A new session. -/
def create (serverAddress : SanAddress) (serverPort : UInt16) (clientAddress : SanAddress)
    (clientPort : UInt16) : ServerEnd :=
  ⟨StopWaitRx.create serverAddress serverPort clientAddress clientPort, Session.create, []⟩

/-- The log after a step. A session that is not in BETA has no key, and its log begins
anew. -/
def logAfter (session : Session) (encrypted : List (UInt64 × Bytes)) (st : Step) :
    List (UInt64 × Bytes) :=
  (if session.m_state = .beta then encrypted else []) ++ st.encrypted

/-- `processDatagram` as `incommingCapsule` calls it. -/
def processDatagram (srv : ShellServer) (env : Environment) (sequenceNumber : UInt64)
    (request : Bytes) : StateT (Session × List (UInt64 × Bytes)) Option (Bool × Bytes) :=
  fun (session, encrypted) =>
    (session.processDatagram srv env sequenceNumber request).map fun st =>
      ((st.result, st.response), (st.session, logAfter session encrypted st))

/-- `incommingCapsule` with its result. -/
def incommingCapsule (srv : ShellServer) (s : ServerEnd) (a : Arrival) :
    Option (Bool × ServerEnd) :=
  (StopWaitRx.incommingCapsule srv.platform.host (processDatagram srv a.env) a.sendCapsule
    a.object s.rx (s.session, s.encrypted) a.rxcapsule).map fun handled =>
      (handled.result, ⟨handled.rx, handled.session.1, handled.session.2⟩)

/-- The session after a capsule. -/
def receive (srv : ShellServer) (s : ServerEnd) (a : Arrival) : Option ServerEnd :=
  (s.incommingCapsule srv a).map Prod.snd

/-- The session after a step on a new request: the receiver goes on to the next number
when there is a response. -/
def after (srv : ShellServer) (s : ServerEnd) (a : Arrival) (st : Step) : ServerEnd where
  rx := if st.result then
      { s.rx with
        m_expectedSeqNum := s.rx.m_expectedSeqNum + 1
        m_lastSerializedCapsule := s.rx.serializedCapsule srv.platform.host a.object st.response }
    else s.rx
  session := st.session
  encrypted := logAfter s.session s.encrypted st

section After

variable (srv : ShellServer) (s : ServerEnd) (a : Arrival) (st : Step)

/-- The session afterwards is the one the step left. -/
@[simp] theorem after_session : (s.after srv a st).session = st.session := rfl

/-- The step's encryptions are appended, or start a new list where the keys are new. -/
@[simp] theorem after_encrypted :
    (s.after srv a st).encrypted = logAfter s.session s.encrypted st := rfl

/-- The expected number advances on a result of true. -/
theorem after_expectedSeqNum (h : st.result = true) :
    (s.after srv a st).rx.m_expectedSeqNum = s.rx.m_expectedSeqNum + 1 := by
  unfold after
  rw [if_pos h]

/-- A session serves one client. -/
theorem after_client : (s.after srv a st).rx.m_clientAddress = s.rx.m_clientAddress ∧
    (s.after srv a st).rx.m_clientPort = s.rx.m_clientPort := by
  unfold after
  split <;> exact ⟨rfl, rfl⟩

end After

/-- A capsule without a message is refused, an old one is answered again, and a new
request is a step of the session. -/
theorem incommingCapsule_eq (srv : ShellServer) (s : ServerEnd) (a : Arrival) :
    s.incommingCapsule srv a =
      match s.rx.parseCapsule srv.platform.host a.rxcapsule with
      | none => some (false, s)
      | some (rxseq, request) =>
        if rxseq ≠ s.rx.m_expectedSeqNum then some (true, s)
        else (s.session.processDatagram srv a.env rxseq request).map fun st =>
          (st.result && a.sendCapsule, s.after srv a st) := by
  unfold incommingCapsule StopWaitRx.incommingCapsule
  cases s.rx.parseCapsule srv.platform.host a.rxcapsule with
  | none => rfl
  | some parsed =>
    obtain ⟨rxseq, request⟩ := parsed
    dsimp only
    split
    · rfl
    · unfold processDatagram
      dsimp only
      cases s.session.processDatagram srv a.env rxseq request with
      | none => rfl
      | some st =>
        obtain ⟨result, response, session, requests, encrypted⟩ := st
        cases result <;> rfl

/-- A session that has taken a capsule is as before or has made a step on a request with
the expected number, a successful one if the capsule is reported so. -/
theorem incommingCapsule_eq_some {srv : ShellServer} {s s' : ServerEnd} {a : Arrival} {ok : Bool}
    (h : s.incommingCapsule srv a = some (ok, s')) :
    s' = s ∨ ∃ request st,
      s.session.processDatagram srv a.env s.rx.m_expectedSeqNum request = some st ∧
      (ok = true → st.result = true) ∧ s' = s.after srv a st := by
  rw [incommingCapsule_eq] at h
  cases hparse : s.rx.parseCapsule srv.platform.host a.rxcapsule with
  | none =>
    rw [hparse] at h
    cases h
    exact .inl rfl
  | some parsed =>
    obtain ⟨rxseq, request⟩ := parsed
    rw [hparse] at h
    dsimp only at h
    split at h
    · cases h
      exact .inl rfl
    · rename_i hseq
      obtain rfl := not_not.mp hseq
      obtain ⟨st, hst, heq⟩ := Option.map_eq_some_iff.mp h
      obtain ⟨rfl, rfl⟩ := Prod.mk.inj heq
      exact .inr ⟨request, st, hst, fun hok => (Bool.and_eq_true_iff.mp hok).1, rfl⟩

end ServerEnd

end San2.Shell
