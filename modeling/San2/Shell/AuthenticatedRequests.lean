import San2.Shell.NewClient
import San2.Shell.SessionIsolation

/-!
# Who the application works for

The sessions of the server take their requests out of the capsules attributed to them, the
requests numbered 1, 2, 3 and so on, each of these once. What reaches the application in
a session is verified under the keys of a login, and the messages of that login are
among these requests: they were in capsules attributed to the same client.
-/

namespace San2.Shell

open Utils Network DragonSRP MachineFamily

namespace ServerEnd

/-- The request in a capsule as a session of the given address and port finds it. -/
def datagramOf (srv : ShellServer) (client : SanAddress × UInt16) (a : Arrival) :
    Option Datagram :=
  ((StopWaitRx.create client.1 client.2 client.1 client.2).parseCapsule srv.platform.host
    a.rxcapsule).map fun (rxseq, request) => ⟨a.env, rxseq, request⟩

/-- Only the client is looked at. -/
theorem map_parseCapsule {srv : ShellServer} {s : ServerEnd} {client : SanAddress × UInt16}
    (haddress : s.rx.m_clientAddress = client.1) (hport : s.rx.m_clientPort = client.2)
    (a : Arrival) :
    datagramOf srv client a = (s.rx.parseCapsule srv.platform.host a.rxcapsule).map
      fun (rxseq, request) => ⟨a.env, rxseq, request⟩ := by
  unfold datagramOf StopWaitRx.parseCapsule
  rw [haddress, hport]
  rfl

end ServerEnd

/-- The requests have the numbers that a sender gives them. -/
def Numbered (requests : List Datagram) : Prop :=
  requests.map Datagram.sequenceNumber =
    (List.range requests.length).map fun k => UInt64.ofNat (k + 1)

/-- Appending the datagram with the next number keeps a list of requests numbered. -/
theorem Numbered.append {requests : List Datagram} (h : Numbered requests) {d : Datagram}
    (hd : d.sequenceNumber = UInt64.ofNat (requests.length + 1)) : Numbered (requests ++ [d]) := by
  unfold Numbered at h ⊢
  rw [List.length_append, List.length_singleton, List.range_succ, List.map_append,
    List.map_append, h, List.map_singleton, List.map_singleton, hd]

/-- A session that has processed the given requests out of some capsules. -/
structure Processed (srv : ShellServer) (client : SanAddress × UInt16) (arrivals : List Arrival)
    (past : List Datagram) (s : ServerEnd) : Prop where
  clientAddress : s.rx.m_clientAddress = client.1
  clientPort : s.rx.m_clientPort = client.2
  reached : Session.run srv past = some s.session
  arrived : past.Sublist (arrivals.filterMap (ServerEnd.datagramOf srv client))
  numbered : Numbered past
  expected : s.rx.m_expectedSeqNum = UInt64.ofNat (past.length + 1)

section Processed

variable {srv : ShellServer} {client : SanAddress × UInt16} {arrivals : List Arrival}
  {past : List Datagram} {s s' : ServerEnd} {a : Arrival}

/-- A new session has processed nothing. -/
theorem processed_create (srv : ShellServer) (serverAddress : SanAddress) (serverPort : UInt16)
    (client : SanAddress × UInt16) :
    Processed srv client [] [] (.create serverAddress serverPort client.1 client.2) where
  clientAddress := rfl
  clientPort := rfl
  reached := rfl
  arrived := List.Sublist.slnil
  numbered := rfl
  expected := rfl

/-- The number that the session expects is the next one. -/
theorem Processed.next (h : Processed srv client arrivals past s) {d : Datagram}
    (hparse : s.rx.parseCapsule srv.platform.host a.rxcapsule = some (d.sequenceNumber, d.request))
    (henv : d.env = a.env) (hseq : d.sequenceNumber = s.rx.m_expectedSeqNum) :
    ServerEnd.datagramOf srv client a = some d ∧ Numbered (past ++ [d]) := by
  refine ⟨?_, h.numbered.append (hseq.trans h.expected)⟩
  rw [ServerEnd.map_parseCapsule h.clientAddress h.clientPort, hparse, Option.map_some, ← henv]

/-- A capsule that the session answers carries the next request, or an old one. -/
theorem Processed.answer (h : Processed srv client arrivals past s)
    (hanswer : s.answer srv a = some s') :
    ∃ past', Processed srv client (arrivals ++ [a]) past' s' := by
  have hcapsule := ServerEnd.answer_eq_some.mp hanswer
  rw [ServerEnd.incommingCapsule_eq] at hcapsule
  cases hparse : s.rx.parseCapsule srv.platform.host a.rxcapsule with
  | none =>
    rw [hparse] at hcapsule
    cases hcapsule
  | some parsed =>
    obtain ⟨rxseq, request⟩ := parsed
    rw [hparse] at hcapsule
    dsimp only at hcapsule
    split_ifs at hcapsule with hseq
    · cases hcapsule
      refine ⟨past, h.clientAddress, h.clientPort, h.reached, ?_, h.numbered, h.expected⟩
      rw [List.filterMap_append]
      exact h.arrived.trans (List.sublist_append_left _ _)
    · rw [not_not] at hseq
      obtain ⟨st, hprocess, heq⟩ := Option.map_eq_some_iff.mp hcapsule
      obtain ⟨hok, rfl⟩ := Prod.mk.inj heq
      have hresult := (Bool.and_eq_true_iff.mp hok).1
      obtain ⟨hdatagram, hnumbered⟩ := h.next (d := ⟨a.env, rxseq, request⟩) hparse rfl hseq
      obtain ⟨haddress, hport⟩ := ServerEnd.after_client srv s a st
      have hreceive : s.session.receive srv ⟨a.env, rxseq, request⟩ = some st.session :=
        Option.map_eq_some_iff.mpr ⟨st, hprocess, rfl⟩
      refine ⟨_, haddress.trans h.clientAddress, hport.trans h.clientPort,
        Session.run_append_single h.reached hreceive, ?_, hnumbered, ?_⟩
      · rw [List.filterMap_append, List.filterMap_cons_some hdatagram, List.filterMap_nil]
        exact h.arrived.append (List.Sublist.refl _)
      rw [ServerEnd.after_expectedSeqNum srv s a st hresult, h.expected, List.length_append,
        List.length_singleton]
      exact (UInt64.ofNat_add _ 1).symm

/-- What a session has made of the capsules that it has received. -/
theorem processed_of_run {serverAddress : SanAddress} {serverPort : UInt16}
    (hrun : Execution.run (ServerEnd.answer srv)
      (.create serverAddress serverPort client.1 client.2) arrivals = some s) :
    ∃ past, Processed srv client arrivals past s := by
  let inv (before : List Arrival) (s : ServerEnd) : Prop :=
    ∃ past, Processed srv client before past s
  have hstep : ∀ {before s a s'}, inv before s → ServerEnd.answer srv s a = some s' →
      inv (before ++ [a]) s' := by
    rintro before s a s' ⟨past, h⟩ hanswer
    exact h.answer hanswer
  have hstart : inv [] (.create serverAddress serverPort client.1 client.2) :=
    ⟨[], processed_create srv serverAddress serverPort client⟩
  exact Execution.run_history hstep hstart hrun

end Processed

namespace Session

/-- The requests that a call of `processDatagram` passes to `processApplicationDatagram`,
whether or not it comes back. -/
def applicationRequests (srv : ShellServer) (s : Session) (d : Datagram) : List Bytes :=
  match s.m_state with
  | .beta =>
    match enc_parse_C_message d.request with
    | .error _ => []
    | .ok encrpytedMessage =>
      match s.initCrypto srv.platform with
      | .error _ => []
      | .ok (enc, dec) => (processEncrpytedDatagram srv.platform d.env enc dec d.sequenceNumber
          encrpytedMessage).applicationRequests
  | _ => []

variable {srv : ShellServer} {past : List Datagram} {s : Session} {d : Datagram}

/-- A request that reaches the application was decrypted from a C message of the session's
client. -/
theorem requested_of_mem_applicationRequests {request : Bytes}
    (hrequest : request ∈ s.applicationRequests srv d) : Requested srv d s request := by
  unfold applicationRequests at hrequest
  cases hstate : s.m_state with
  | beta =>
    rw [hstate] at hrequest
    cases hparse : enc_parse_C_message d.request with
    | error code => simp [hparse] at hrequest
    | ok encrpytedMessage =>
      cases hcrypto : s.initCrypto srv.platform with
      | error e => simp [hparse, hcrypto] at hrequest
      | ok ciphers =>
        simp only [hparse, hcrypto] at hrequest
        exact ⟨hstate, encrpytedMessage, ciphers.1, ciphers.2, hparse, hcrypto,
          (processEncrpytedDatagram_calls _ _ _ _ _ _).1 request hrequest⟩
  | zero | alpha | fault => simp [hstate] at hrequest

/-- The request comes out of a C message, verified for its number under the client's keys of
the login that the session has been through. -/
def Authentic (srv : ShellServer) (past : List Datagram) (d : Datagram) (request : Bytes) :
    Prop :=
  ∃ ver keydrv dec ciphertext, Login srv past ver ∧
    HashKeyDerivator.create srv.platform ver.KK shAes256Keylen shIvlen shSha1Outputlen =
      .ok keydrv ∧
    DatagramCipher.create srv.platform keydrv.mClientEncryptionKey keydrv.mClientIV
      keydrv.mClientMacKey = .ok dec ∧
    enc_parse_C_message d.request =
      .ok (ciphertext ++ dec.truncDigest srv.platform ciphertext d.sequenceNumber) ∧
    dec.aesCtr.encrypt srv.platform.host srv.platform.cipher ciphertext d.sequenceNumber =
      .ok request

/-- After any history of the server, a request that reaches the application is authentic: it
continues the numbered requests that the same client sent. -/
theorem History.authentic (h : History srv past s) {request : Bytes}
    (hrequest : request ∈ s.applicationRequests srv d) : Authentic srv past d request := by
  obtain ⟨hbeta, message, enc, dec, hparse, hcrypto, hdecrypt⟩ :=
    requested_of_mem_applicationRequests hrequest
  obtain ⟨ver, hlogin, hK⟩ := h.loggedIn hbeta
  have hderive := (initCrypto_eq_ok h.ciphers).mp hcrypto
  obtain ⟨keydrv, hkeydrv, -, hdec⟩ := deriveCrypto_eq_ok hderive
  obtain ⟨ciphertext, -, -, rfl, hplain⟩ := decryptAndVerifyMac_eq_returns.mp hdecrypt
  exact ⟨ver, keydrv, dec, ciphertext, hlogin, hK ▸ hkeydrv, hdec, hparse, hplain⟩

end Session

/-- The requests that `incommingCapsule` passes to the application. -/
def ServerEnd.applicationRequests (srv : ShellServer) (s : ServerEnd) (a : Arrival) :
    List Bytes :=
  match s.rx.parseCapsule srv.platform.host a.rxcapsule with
  | none => []
  | some (rxseq, request) =>
    if rxseq ≠ s.rx.m_expectedSeqNum then []
    else s.session.applicationRequests srv ⟨a.env, rxseq, request⟩

/-- A request to the application comes out of the next request of the session. -/
theorem Processed.authentic {srv : ShellServer} {client : SanAddress × UInt16}
    {arrivals : List Arrival} {past : List Datagram} {s : ServerEnd} {a : Arrival}
    (h : Processed srv client arrivals past s) {request : Bytes}
    (hrequest : request ∈ s.applicationRequests srv a) :
    ∃ d, ServerEnd.datagramOf srv client a = some d ∧ Numbered (past ++ [d]) ∧
      Session.Authentic srv past d request := by
  unfold ServerEnd.applicationRequests at hrequest
  cases hparse : s.rx.parseCapsule srv.platform.host a.rxcapsule with
  | none => simp [hparse] at hrequest
  | some parsed =>
    obtain ⟨rxseq, datagram⟩ := parsed
    rw [hparse] at hrequest
    dsimp only at hrequest
    split_ifs at hrequest with hseq
    · cases hrequest
    · obtain ⟨hdatagram, hnumbered⟩ :=
        h.next (d := ⟨a.env, rxseq, datagram⟩) hparse rfl (not_not.mp hseq)
      exact ⟨_, hdatagram, hnumbered, (Session.history_of_run h.reached).authentic hrequest⟩

namespace MainLoop

/-- The requests that the application gets in a turn. -/
def applicationRequests (srv : ShellServer) (loop : MainLoop) (turn : Turn) : List Bytes :=
  match turn.waited with
  | .success rxcapsule =>
    let (_, _, fromPort) := rxcapsule.getPortsDS srv.platform.host loop.toPort loop.fromPort
    (loop.sessionOf rxcapsule.srcAddress fromPort).applicationRequests srv
      ⟨turn.env, turn.sendCapsule, turn.object, rxcapsule⟩
  | _ => []

variable {srv : ShellServer}

/-- The application gets its requests in the session that the capsule is attributed to. -/
theorem mem_applicationRequests {loop : MainLoop} {turn : Turn} {request : Bytes}
    (hrequest : request ∈ loop.applicationRequests srv turn) :
    ∃ client a, attributed srv (loop.toPort, loop.fromPort) [turn] = [(client, a)] ∧
      request ∈ (loop.sessions client).applicationRequests srv a := by
  unfold applicationRequests at hrequest
  cases hwaited : turn.waited with
  | success rxcapsule =>
    rw [hwaited] at hrequest
    refine ⟨(rxcapsule.srcAddress, _), ⟨_, _, _, rxcapsule⟩, ?_, hrequest⟩
    rw [attributed, hwaited]
    rfl
  | error | invalidResponse | capsuleUnpack | timeout | invokeFailed | unknown =>
    rw [hwaited] at hrequest
    cases hrequest

/-- A request to the application is authentic after requests that the server has taken from
capsules attributed to the same client, all of them numbered in a row. -/
theorem requests_authenticated {serverAddress : SanAddress} {srvIntPort toPort fromPort : UInt16}
    {turns : List Turn} {loop : MainLoop}
    (hrun : Execution.run (MainLoop.step srv)
      (start serverAddress srvIntPort toPort fromPort) turns = some loop)
    {turn : Turn} {request : Bytes} (hrequest : request ∈ loop.applicationRequests srv turn) :
    ∃ client a past d,
      attributed srv (loop.toPort, loop.fromPort) [turn] = [(client, a)] ∧
      ServerEnd.datagramOf srv client a = some d ∧
      past.Sublist ((inputsOf client (attributed srv (toPort, fromPort) turns)).filterMap
        (ServerEnd.datagramOf srv client)) ∧
      Numbered (past ++ [d]) ∧ Session.Authentic srv past d request := by
  obtain ⟨client, a, hlast, hmem⟩ := mem_applicationRequests hrequest
  have hown := (run_iff_family.mp ⟨loop, hrun, rfl⟩).2
  obtain ⟨past, hprocessed⟩ := processed_of_run (run_member hown client)
  obtain ⟨d, hdatagram, hnumbered, hauthentic⟩ := hprocessed.authentic hmem
  exact ⟨client, a, past, d, hlast, hdatagram, hprocessed.arrived, hnumbered, hauthentic⟩

/-- A user logs in. -/
def sampleLoginTurns : List Turn :=
  [{ sampleTurn (message .littleEndian 1
      (clientMessage encMsgTypeA (string2bytes "u" ++ [0] ++ List.replicate 64 1))) with
    random := Session.sampleExponent },
  sampleTurn (message .littleEndian 2 (clientMessage encMsgTypeB (List.replicate 19 0 ++ [6])))]

/-- Then the user asks for the uptime. -/
def sampleRequestTurn : Turn :=
  sampleTurn (message .littleEndian 3
    (clientMessage encMsgTypeC (string2bytes "uptime" ++ List.replicate 12 0)))

/-- The theorem on a whole run: after a login, `uptime` reaches the application, and it is the
request numbered next. -/
theorem requests_authenticated_uptime :
    ∃ client a past d,
      attributed Session.sampleUserServer (sampleTx.m_serverPort, sampleTx.m_clientPort)
        [sampleRequestTurn] = [(client, a)] ∧
      ServerEnd.datagramOf Session.sampleUserServer client a = some d ∧
      past.Sublist ((inputsOf client
        (attributed Session.sampleUserServer (0, 0) sampleLoginTurns)).filterMap
          (ServerEnd.datagramOf Session.sampleUserServer client)) ∧
      Numbered (past ++ [d]) ∧
      Session.Authentic Session.sampleUserServer past d (string2bytes "uptime") := by
  have hsample : (Execution.run (MainLoop.step Session.sampleUserServer)
      (start sampleTx.m_serverAddress sampleTx.m_serverPort 0 0) sampleLoginTurns).any
        (fun loop => loop.toPort = sampleTx.m_serverPort ∧ loop.fromPort = sampleTx.m_clientPort ∧
          string2bytes "uptime" ∈
            loop.applicationRequests Session.sampleUserServer sampleRequestTurn) = true := by
    decide +kernel
  obtain ⟨loop, hrun, hloop⟩ := (Option.any_eq_true _ _).mp hsample
  obtain ⟨hto, hfrom, hrequest⟩ := of_decide_eq_true hloop
  rw [← hto, ← hfrom]
  exact requests_authenticated hrun hrequest

end MainLoop

end San2.Shell
