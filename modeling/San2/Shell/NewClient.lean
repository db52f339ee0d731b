import San2.Shell.LosslessNetwork

/-!
# A new client of a server that has been running

A client that starts anew begins with the sequence number 1. The server looks up its
session by address and port, and sessions are never removed, so the client may find one
that an earlier client has left there. Its login ends with a session key exactly when that
session has a verificator for it.
-/

namespace San2.Shell

open Utils Network DragonSRP

namespace ClientSession

end ClientSession

namespace Session

variable {srv : ShellServer} {s : Session} {d : Datagram} {st : Step}

end Session

namespace ServerEnd

/-- The session waits for the proof that belongs to an offer with the given verificator. -/
structure Waits (s : ServerEnd) (ver : SrpVerificator) : Prop where
  expectedSeqNum : s.rx.m_expectedSeqNum = 2
  state : s.session.m_state = .alpha
  ver : s.session.ver = ver

/-- The verificator that a new client meets in a session. A session in ZERO that expects the
first request computes one for it. A session in ALPHA whose offer was the response to its
first request makes the same offer again. No other session has one. -/
def Meets (srv : ShellServer) (s : ServerEnd) (env : Environment) (request : Bytes)
    (ver : SrpVerificator) : Prop :=
  (s.rx.m_expectedSeqNum = 1 ∧ s.session.m_state = .zero ∧
    ∃ username srpA response, enc_parse_A_message env.beyond request = .ok (username, srpA) ∧
      getVerificator srv.math srv.lookup env.random true username srpA = .ok ver ∧
      enc_construct_P_message_success ver.salt ver.BB = .ok response) ∨
  s.Waits ver

end ServerEnd

namespace MainLoop

section Login

variable {srv : ShellServer} {loop : MainLoop} {s : ServerEnd} {tx : StopWaitTx}
  (h : loop.Remembering srv tx.m_serverAddress tx.m_serverPort)
  (hs : loop.sessionOf tx.m_clientAddress tx.m_clientPort = s) (host : ByteOrder)
  (object : CCapsule) (request : Bytes) (passages : ℕ → Passage)

include h hs

end Login

end MainLoop

namespace ClientSession

/-- The values of the client agree with the verificator: it computes the proof that the
server expects, and expects the proof that the server has. -/
def Agrees (math : OsslMathImpl) (sca : SrpClientAuthenticator) (ver : SrpVerificator) : Prop :=
  ∃ sca', getM1 math true ver.salt ver.BB sca = .ok (ver.calc_M1, sca') ∧
    sca'.M2_calculated = ver.calc_M2

section Network

variable {srv : ShellServer} {loop : MainLoop} {p : Platform} {math : OsslMathImpl}
  {random : Except DsrpException Bytes} {tx : StopWaitTx} {surroundings : Surroundings}
  {username password : Bytes} {sca : SrpClientAuthenticator} {request : Bytes}

end Network

end ClientSession

end San2.Shell
