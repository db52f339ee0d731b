import San2.Shell.Session

/-!
# Runs of a session

A session receives any datagrams in any order. Every call of `processDatagram` ends in
one of five ways, and from these follow what the members of a session say about each
other and what the past says about them: a session in BETA has been through one
login, its session key comes from that login, and only requests verified under that
key reach the application.
-/

namespace San2.Shell

open Utils DragonSRP

/-- A request as it reaches a session. -/
structure Datagram where
  env : Environment
  sequenceNumber : UInt64
  request : Bytes

namespace Session

/-- One datagram through `processDatagram`, with what surrounds it. -/
def process (srv : ShellServer) (s : Session) (d : Datagram) : Option Step :=
  s.processDatagram srv d.env d.sequenceNumber d.request

/-- The session after a datagram; a memory fault leaves none. -/
def receive (srv : ShellServer) (s : Session) (d : Datagram) : Option Session :=
  (s.process srv d).map Step.session

/-- The session after a sequence of datagrams. -/
def run (srv : ShellServer) (past : List Datagram) : Option Session :=
  Execution.run (receive srv) create past

/-- State ZERO with nothing left of a login but the verificator object. -/
structure Cleared (s : Session) : Prop where
  state : s.m_state = .zero
  username : s.m_srpUsername = []
  srpA : s.m_srpA = []
  sessionK : s.m_sessionK = []
  enc : s.m_enc = none
  dec : s.m_dec = none

/-- `resetState` clears everything a login left. -/
theorem cleared_resetState (s : Session) : s.resetState.Cleared := ⟨rfl, rfl, rfl, rfl, rfl, rfl⟩

/-- A request that is passed to the application: it comes out of a C message that the
session's decryptor has verified. -/
def Requested (srv : ShellServer) (d : Datagram) (s : Session) (applicationRequest : Bytes) :
    Prop :=
  s.m_state = .beta ∧ ∃ encrpytedMessage enc dec,
    enc_parse_C_message d.request = .ok encrpytedMessage ∧
    s.initCrypto srv.platform = .ok (enc, dec) ∧
    DatagramDecryptor.decryptAndVerifyMac srv.platform dec bufferSize encrpytedMessage
      d.sequenceNumber = .returns applicationRequest

/-- The ends of a call. -/
inductive Exit (srv : ShellServer) (d : Datagram) (s : Session) : Step → Prop
  | stuck (hstate : s.m_state = .fault) : Exit srv d s ⟨true, [], s, [], []⟩
  | reset (result : Bool) (response : Bytes) (ver : SrpVerificator) (requests : List Bytes)
      (encrypted : List (UInt64 × Bytes))
      (hrequests : ∀ request ∈ requests, Requested srv d s request)
      (hencrypted : encrypted = [] ∨
        s.m_state = .beta ∧ ∃ response, encrypted = [(d.sequenceNumber, response)]) :
      Exit srv d s ⟨result, response, { s with ver := ver }.resetState, requests, encrypted⟩
  | offered (username srpA : Bytes) (ver : SrpVerificator) (response : Bytes)
      (hstate : s.m_state = .zero)
      (hparse : enc_parse_A_message d.env.beyond d.request = .ok (username, srpA))
      (hver : getVerificator srv.math srv.lookup d.env.random true username srpA = .ok ver)
      (hresponse : enc_construct_P_message_success ver.salt ver.BB = .ok response) :
      Exit srv d s ⟨true, response, { s.resetState with
        m_srpUsername := username, m_srpA := srpA, ver := ver, m_state := .alpha }, [], []⟩
  | authenticated (currentM1 currentM2 sessionK response : Bytes)
      (hstate : s.m_state = .alpha)
      (hparse : enc_parse_B_message d.request = .ok currentM1)
      (hauth : s.ver.authenticate currentM1 = .ok (currentM2, sessionK))
      (hresponse : enc_construct_Q_message_success currentM2 = .ok response) :
      Exit srv d s
        ⟨true, response, { s with m_sessionK := sessionK, m_state := .beta }, [], []⟩
  | answered (enc : DatagramEncryptor) (dec : DatagramDecryptor)
      (request response encryptedResponse : Bytes)
      (hrequest : Requested srv d s request)
      (hcrypto : s.initCrypto srv.platform = .ok (enc, dec))
      (happlication : d.env.application d.sequenceNumber request = (true, response))
      (hencrypt : DatagramEncryptor.encryptAndAuthenticate srv.platform enc bufferSize response
        d.sequenceNumber = .returns encryptedResponse) :
      Exit srv d s ⟨true, enc_construct_R_message encryptedResponse 0,
        { s with m_enc := some enc, m_dec := some dec }, [request],
        [(d.sequenceNumber, response)]⟩

/-- A call that resets the session and has passed nothing on. -/
theorem Exit.resetState (srv : ShellServer) (d : Datagram) (s : Session) (result : Bool)
    (response : Bytes) : Exit srv d s ⟨result, response, s.resetState, [], []⟩ :=
  .reset result response s.ver [] [] (fun _ h => absurd h List.not_mem_nil) (.inl rfl)

/-- Every way out of ZERO. -/
theorem processZero_exit (srv : ShellServer) (d : Datagram) {s : Session}
    (hstate : s.m_state = .zero) : Exit srv d s (s.processZero srv d.env d.request) := by
  unfold processZero
  dsimp only
  cases hparse : enc_parse_A_message d.env.beyond d.request with
  | error code =>
    -- the call goes on with an empty public value, for which there is no verificator
    have hempty : s.resetState.m_srpA = [] := rfl
    cases hver : getVerificator srv.math srv.lookup d.env.random true
        s.resetState.m_srpUsername s.resetState.m_srpA with
    | error e => cases e <;> exact Exit.resetState srv d s true _
    | ok ver =>
      rw [hempty] at hver
      exact absurd hver (getVerificator_nil_ne_ok _ _ _ _ _ _)
  | ok parsed =>
    obtain ⟨username, srpA⟩ := parsed
    dsimp only
    cases hver : getVerificator srv.math srv.lookup d.env.random true username srpA with
    | error e => cases e <;> exact Exit.resetState srv d s true _
    | ok ver =>
      dsimp only
      cases hresponse : enc_construct_P_message_success ver.salt ver.BB with
      | error code =>
        exact .reset false [] ver [] [] (fun _ h => absurd h List.not_mem_nil) (.inl rfl)
      | ok response => exact .offered username srpA ver response hstate hparse hver hresponse

/-- Every way out of ALPHA. -/
theorem processAlpha_exit (srv : ShellServer) (d : Datagram) {s : Session}
    (hstate : s.m_state = .alpha) : Exit srv d s (s.processAlpha d.request) := by
  unfold processAlpha
  cases hparse : enc_parse_B_message d.request with
  | error code => exact Exit.resetState srv d s true _
  | ok currentM1 =>
    dsimp only
    cases hauth : s.ver.authenticate currentM1 with
    | error e => exact Exit.resetState srv d s true _
    | ok accepted =>
      obtain ⟨currentM2, sessionK⟩ := accepted
      dsimp only
      cases hresponse : enc_construct_Q_message_success currentM2 with
      | error code => exact Exit.resetState srv d s false []
      | ok response =>
        exact .authenticated currentM1 currentM2 sessionK response hstate hparse hauth hresponse

section EncryptedDatagram

variable (p : Platform) (env : Environment) (enc : DatagramEncryptor) (dec : DatagramDecryptor)
  (sequenceNumber : UInt64) (encrpytedMessage : Bytes)

/-- What the inner call passes on has been decrypted by the given decryptor, and it
encrypts at most one response. -/
theorem processEncrpytedDatagram_calls :
    (∀ request ∈ (processEncrpytedDatagram p env enc dec sequenceNumber
        encrpytedMessage).applicationRequests,
      DatagramDecryptor.decryptAndVerifyMac p dec bufferSize encrpytedMessage sequenceNumber =
        .returns request) ∧
    ((processEncrpytedDatagram p env enc dec sequenceNumber encrpytedMessage).encrypted = [] ∨
      ∃ response, (processEncrpytedDatagram p env enc dec sequenceNumber
        encrpytedMessage).encrypted = [(sequenceNumber, response)]) := by
  unfold processEncrpytedDatagram
  split
  · simp
  · cases hdecrypt : DatagramDecryptor.decryptAndVerifyMac p dec bufferSize encrpytedMessage
      sequenceNumber with
    | fault => simp
    | throws e => simp
    | returns request =>
      rcases happlication : env.application sequenceNumber request with ⟨ok, response⟩
      cases ok with
      | false => simp [happlication]
      | true =>
        by_cases hempty : response.length = 0
        · simp [happlication, hempty]
        · cases hencrypt : DatagramEncryptor.encryptAndAuthenticate p enc bufferSize response
            sequenceNumber <;> simp [happlication, hempty, hencrypt]

variable {p env enc dec sequenceNumber encrpytedMessage}

/-- A response comes from the application and has been encrypted. -/
theorem processEncrpytedDatagram_returns {encryptedResponse : Bytes}
    (h : (processEncrpytedDatagram p env enc dec sequenceNumber encrpytedMessage).outcome =
      .returns (true, encryptedResponse)) :
    ∃ request response,
      DatagramDecryptor.decryptAndVerifyMac p dec bufferSize encrpytedMessage sequenceNumber =
        .returns request ∧
      env.application sequenceNumber request = (true, response) ∧
      DatagramEncryptor.encryptAndAuthenticate p enc bufferSize response sequenceNumber =
        .returns encryptedResponse ∧
      processEncrpytedDatagram p env enc dec sequenceNumber encrpytedMessage =
        ⟨.returns (true, encryptedResponse), [request], [(sequenceNumber, response)]⟩ := by
  unfold processEncrpytedDatagram at h ⊢
  split at h
  · simp at h
  · rename_i hmessage
    rw [if_neg hmessage]
    cases hdecrypt : DatagramDecryptor.decryptAndVerifyMac p dec bufferSize encrpytedMessage
      sequenceNumber with
    | fault => simp [hdecrypt] at h
    | throws e => simp [hdecrypt] at h
    | returns request =>
      simp only [hdecrypt] at h ⊢
      rcases happlication : env.application sequenceNumber request with ⟨ok, response⟩
      cases ok with
      | false => simp [happlication] at h
      | true =>
        simp only [happlication] at h ⊢
        split at h
        · simp at h
        · rename_i hempty
          rw [if_neg hempty]
          cases hencrypt : DatagramEncryptor.encryptAndAuthenticate p enc bufferSize response
              sequenceNumber with
          | fault => simp [hencrypt] at h
          | throws e => simp [hencrypt] at h
          | returns out =>
            simp only [hencrypt, Outcome.returns.injEq, Prod.mk.injEq, true_and] at h
            subst h
            exact ⟨request, response, rfl, happlication, hencrypt, rfl⟩

end EncryptedDatagram

/-- Every way out of BETA. -/
theorem processBeta_exit {srv : ShellServer} {d : Datagram} {s : Session} {st : Step}
    (hstate : s.m_state = .beta)
    (h : s.processBeta srv d.env d.sequenceNumber d.request = some st) : Exit srv d s st := by
  unfold processBeta at h
  cases hparse : enc_parse_C_message d.request with
  | error code =>
    simp only [hparse, Option.some.injEq] at h
    exact h ▸ Exit.resetState srv d s false []
  | ok encrpytedMessage =>
    cases hcrypto : s.initCrypto srv.platform with
    | error e =>
      simp only [hparse, hcrypto, Option.some.injEq] at h
      exact h ▸ Exit.resetState srv d s false []
    | ok ciphers =>
      obtain ⟨enc, dec⟩ := ciphers
      simp only [hparse, hcrypto] at h
      obtain ⟨hrequests, hencrypted⟩ := processEncrpytedDatagram_calls srv.platform d.env enc dec
        d.sequenceNumber encrpytedMessage
      have hreset (result : Bool) (response : Bytes) := Exit.reset (d := d) (s := s) result
        response s.ver _ _ (fun request hmem =>
          ⟨hstate, encrpytedMessage, enc, dec, hparse, hcrypto, hrequests request hmem⟩)
        (hencrypted.imp_right fun hone => ⟨hstate, hone⟩)
      cases houtcome : (processEncrpytedDatagram srv.platform d.env enc dec d.sequenceNumber
          encrpytedMessage).outcome with
      | fault => simp [houtcome] at h
      | throws e =>
        simp only [houtcome, Option.some.injEq] at h
        exact h ▸ hreset false []
      | returns returned =>
        obtain ⟨ok, encryptedResponse⟩ := returned
        cases ok with
        | false =>
          simp only [houtcome, Option.some.injEq] at h
          exact h ▸ hreset false []
        | true =>
          obtain ⟨request, response, hdecrypt, happlication, hencrypt, hinner⟩ :=
            processEncrpytedDatagram_returns houtcome
          simp only [hinner, Option.some.injEq] at h
          exact h ▸ .answered enc dec request response encryptedResponse
            ⟨hstate, encrpytedMessage, enc, dec, hparse, hcrypto, hdecrypt⟩ hcrypto happlication
            hencrypt

/-- Every call ends in one of the five ways. -/
theorem process_exit {srv : ShellServer} {d : Datagram} {s : Session} {st : Step}
    (h : s.process srv d = some st) : Exit srv d s st := by
  unfold process processDatagram at h
  cases hstate : s.m_state with
  | zero =>
    simp only [hstate, Option.some.injEq] at h
    exact h ▸ processZero_exit srv d hstate
  | alpha =>
    simp only [hstate, Option.some.injEq] at h
    exact h ▸ processAlpha_exit srv d hstate
  | beta =>
    simp only [hstate] at h
    exact processBeta_exit hstate h
  | fault =>
    simp only [hstate, Option.some.injEq] at h
    exact h ▸ .stuck hstate

/-- The datagram after `past` has taken the session from ZERO to ALPHA: it is an A
message, for whose username and public value the server computed the verificator. -/
structure Offer (srv : ShellServer) (past : List Datagram) (a : Datagram) (ver : SrpVerificator) :
    Prop where
  from_zero : ∃ s, run srv past = some s ∧ s.m_state = .zero
  to_alpha : ∃ s, run srv (past ++ [a]) = some s ∧ s.m_state = .alpha ∧ s.ver = ver
  verificator : ∃ username srpA, enc_parse_A_message a.env.beyond a.request = .ok (username, srpA) ∧
    getVerificator srv.math srv.lookup a.env.random true username srpA = .ok ver

/-- The last login: an offer, right after it the B message with the proof of its
verificator, and since then nothing has taken the session out of BETA. -/
def Login (srv : ShellServer) (past : List Datagram) (ver : SrpVerificator) : Prop :=
  ∃ before a b since, past = before ++ a :: b :: since ∧ Offer srv before a ver ∧
    enc_parse_B_message b.request = .ok ver.calc_M1 ∧
    ∀ since₁ since₂, since = since₁ ++ since₂ →
      ∃ s, run srv (before ++ a :: b :: since₁) = some s ∧ s.m_state = .beta

/-- The ciphers exist together or not at all, and only in BETA, where they are those
of the session key. -/
def Ciphers (srv : ShellServer) (s : Session) : Prop :=
  (s.m_enc = none ∧ s.m_dec = none) ∨
  (s.m_state = .beta ∧ ∃ enc dec, deriveCrypto srv.platform s.m_sessionK = .ok (enc, dec) ∧
    s.m_enc = some enc ∧ s.m_dec = some dec)

/-- What holds of a session after the datagrams of `past`: it was reached by them, its keys come
from its session key, and ALPHA and BETA were entered by an offer and a login among them. -/
structure History (srv : ShellServer) (past : List Datagram) (s : Session) : Prop where
  reached : run srv past = some s
  ciphers : Ciphers srv s
  sessionK : s.m_state ≠ .beta → s.m_sessionK = []
  alive : s.m_state ≠ .fault
  offered : s.m_state = .alpha → ∃ before a, past = before ++ [a] ∧ Offer srv before a s.ver
  loggedIn : s.m_state = .beta → ∃ ver, Login srv past ver ∧ s.m_sessionK = ver.KK

/-- A new session has the empty history. -/
theorem history_create (srv : ShellServer) : History srv [] create where
  reached := rfl
  ciphers := .inl ⟨rfl, rfl⟩
  sessionK _ := rfl
  alive := by decide
  offered h := absurd h (by decide)
  loggedIn h := absurd h (by decide)

/-- Whether they exist already or are made now, the ciphers of a call are those of the
session key. -/
theorem initCrypto_eq_ok {srv : ShellServer} {s : Session} (hciphers : Ciphers srv s)
    {enc : DatagramEncryptor} {dec : DatagramDecryptor} :
    s.initCrypto srv.platform = .ok (enc, dec) ↔
      deriveCrypto srv.platform s.m_sessionK = .ok (enc, dec) := by
  unfold initCrypto
  obtain ⟨henc, hdec⟩ | ⟨-, enc', dec', hderive, henc, hdec⟩ := hciphers
  · rw [henc, hdec]
  · rw [henc, hdec, hderive]
    rfl

/-- A run goes on with one more datagram. -/
theorem run_append_single {srv : ShellServer} {past : List Datagram} {s s' : Session}
    {d : Datagram} (hrun : run srv past = some s) (hreceive : s.receive srv d = some s') :
    run srv (past ++ [d]) = some s' :=
  (Execution.run_append_eq_some _).mpr ⟨s, hrun, Execution.run_single hreceive⟩

section Receive

variable {srv : ShellServer} {past : List Datagram} {s : Session} {d : Datagram}

/-- A session in BETA remembers its login while it stays there. -/
theorem Login.append {ver : SrpVerificator} (h : Login srv past ver)
    (hrun : run srv (past ++ [d]) = some s) (hstate : s.m_state = .beta) :
    Login srv (past ++ [d]) ver := by
  obtain ⟨before, a, b, since, rfl, hoffer, hproof, hsince⟩ := h
  refine ⟨before, a, b, since ++ [d], by simp, hoffer, hproof, ?_⟩
  intro since₁ since₂ hsplit
  rcases List.eq_nil_or_concat since₂ with rfl | ⟨init, last, rfl⟩
  · rw [List.append_nil] at hsplit
    refine ⟨s, ?_, hstate⟩
    rw [← hsplit, ← hrun]
    simp
  · rw [List.concat_eq_append, ← List.append_assoc] at hsplit
    exact hsince since₁ init (List.append_inj_left' hsplit rfl)

/-- A reset session needs no history. -/
theorem History.of_cleared {s' : Session} (hrun : run srv past = some s') (h : s'.Cleared) :
    History srv past s' where
  reached := hrun
  ciphers := .inl ⟨h.enc, h.dec⟩
  sessionK _ := h.sessionK
  alive := by simp [h.state]
  offered hstate := by simp [h.state] at hstate
  loggedIn hstate := by simp [h.state] at hstate

/-- The next datagram extends the history. -/
theorem History.receive {s' : Session} (h : History srv past s)
    (hreceive : s.receive srv d = some s') : History srv (past ++ [d]) s' := by
  have hrun := run_append_single h.reached hreceive
  obtain ⟨st, hprocess, rfl⟩ := Option.map_eq_some_iff.mp hreceive
  cases process_exit hprocess with
  | stuck hstate => exact absurd hstate h.alive
  | reset result response ver requests encrypted _ _ =>
    exact .of_cleared hrun (cleared_resetState _)
  | offered username srpA ver response hstate hparse hver _ =>
    refine ⟨hrun, .inl ⟨rfl, rfl⟩, fun _ => rfl, by simp, fun _ => ?_,
      fun hbeta => by simp at hbeta⟩
    exact ⟨past, d, rfl, ⟨s, h.reached, hstate⟩, ⟨_, hrun, rfl, rfl⟩, username, srpA, hparse, hver⟩
  | authenticated currentM1 currentM2 sessionK response hstate hparse hauth _ =>
    obtain ⟨hM1, -, -, hK⟩ := SrpVerificator.authenticate_eq_ok.mp hauth
    obtain ⟨before, a, rfl, hoffer⟩ := h.offered hstate
    have hciphers : s.m_enc = none ∧ s.m_dec = none := by
      obtain hnone | ⟨hbeta, -⟩ := h.ciphers
      · exact hnone
      · rw [hstate] at hbeta
        cases hbeta
    refine ⟨hrun, .inl hciphers, fun hbeta => absurd rfl hbeta, by simp,
      fun halpha => by simp at halpha, fun _ => ⟨s.ver, ?_, hK⟩⟩
    refine ⟨before, a, d, [], by simp, hoffer, hM1 ▸ hparse, ?_⟩
    intro since₁ since₂ hsplit
    obtain ⟨rfl, -⟩ := List.append_eq_nil_iff.mp hsplit.symm
    exact ⟨_, by simpa using hrun, rfl⟩
  | answered enc dec request response encryptedResponse hrequest hcrypto _ _ =>
    obtain ⟨hstate, -⟩ := hrequest
    obtain ⟨ver, hlogin, hK⟩ := h.loggedIn hstate
    have hderive := (initCrypto_eq_ok h.ciphers).mp hcrypto
    refine ⟨hrun, .inr ⟨hstate, enc, dec, hderive, rfl, rfl⟩, h.sessionK, h.alive,
      fun halpha => ?_, fun _ => ⟨ver, hlogin.append hrun hstate, hK⟩⟩
    simp [hstate] at halpha

/-- Every reachable session has a history. -/
theorem history_of_run (hrun : run srv past = some s) : History srv past s :=
  Execution.run_history History.receive (history_create srv) hrun

end Receive

/-- A call that moves a session forward: from ZERO to ALPHA, from ALPHA to BETA, or on
in BETA, with a response that reports no error. -/
def Succeeded (s : Session) (st : Step) : Prop :=
  st.result = true ∧ st.response[2]? = some 0 ∧
    ((s.m_state = .zero ∧ st.session.m_state = .alpha) ∨
      (s.m_state = .alpha ∧ st.session.m_state = .beta) ∨
      (s.m_state = .beta ∧ st.session.m_state = .beta))

/-- What holds of a session after the given past, and of its answer to any datagram. -/
structure Secure (srv : ShellServer) (past : List Datagram) (s : Session) : Prop where
  ciphers_together : s.m_enc.isSome = s.m_dec.isSome
  ciphers_in_beta : s.m_enc.isSome = true → s.m_state = .beta
  key_in_beta : s.m_state ≠ .beta → s.m_sessionK = []
  /-- BETA is entered from ALPHA, with the proof of the verificator that the step from
  ZERO to ALPHA right before has computed. -/
  login : ∀ d st, s.process srv d = some st → s.m_state ≠ .beta → st.session.m_state = .beta →
    s.m_state = .alpha ∧ ∃ before a ver, past = before ++ [a] ∧ Offer srv before a ver ∧
      enc_parse_B_message d.request = .ok ver.calc_M1 ∧ st.session.m_sessionK = ver.KK
  /-- The application gets nothing but decrypted C messages whose digest is right for the
  sequence number under the client's keys of the last login. -/
  requests : ∀ d st, s.process srv d = some st → ∀ request ∈ st.applicationRequests,
    s.m_state = .beta ∧ ∃ ver keydrv dec ciphertext, Login srv past ver ∧
      HashKeyDerivator.create srv.platform ver.KK shAes256Keylen shIvlen shSha1Outputlen =
        .ok keydrv ∧
      DatagramCipher.create srv.platform keydrv.mClientEncryptionKey keydrv.mClientIV
        keydrv.mClientMacKey = .ok dec ∧
      enc_parse_C_message d.request =
        .ok (ciphertext ++ dec.truncDigest srv.platform ciphertext d.sequenceNumber) ∧
      dec.aesCtr.encrypt srv.platform.host srv.platform.cipher ciphertext d.sequenceNumber =
        .ok request
  /-- A call that does not succeed leaves nothing of a login. -/
  failure : ∀ d st, s.process srv d = some st → ¬ Succeeded s st → st.session.Cleared

section Guarantees

variable {srv : ShellServer} {past : List Datagram} {s : Session} {d : Datagram} {st : Step}

/-- BETA is entered through a proof. -/
theorem History.login (h : History srv past s) (hprocess : s.process srv d = some st)
    (hstate : s.m_state ≠ .beta) (hbeta : st.session.m_state = .beta) :
    s.m_state = .alpha ∧ ∃ before a ver, past = before ++ [a] ∧ Offer srv before a ver ∧
      enc_parse_B_message d.request = .ok ver.calc_M1 ∧ st.session.m_sessionK = ver.KK := by
  cases process_exit hprocess with
  | stuck hfault => exact absurd hfault h.alive
  | reset result response ver requests encrypted _ _ => cases hbeta
  | offered username srpA ver response _ _ _ _ => cases hbeta
  | authenticated currentM1 currentM2 sessionK response halpha hparse hauth _ =>
    obtain ⟨hM1, -, -, hK⟩ := SrpVerificator.authenticate_eq_ok.mp hauth
    obtain ⟨before, a, hpast, hoffer⟩ := h.offered halpha
    exact ⟨halpha, before, a, s.ver, hpast, hoffer, hM1 ▸ hparse, hK⟩
  | answered enc dec request response encryptedResponse _ _ _ _ => exact absurd hbeta hstate

/-- Every request to the application has been verified. -/
theorem requested_of_mem (hprocess : s.process srv d = some st) {request : Bytes}
    (hrequest : request ∈ st.applicationRequests) : Requested srv d s request := by
  cases process_exit hprocess with
  | stuck _ => cases hrequest
  | reset result response ver requests encrypted hrequests _ => exact hrequests request hrequest
  | offered username srpA ver response _ _ _ _ => cases hrequest
  | authenticated currentM1 currentM2 sessionK response _ _ _ _ => cases hrequest
  | answered enc dec request' response encryptedResponse hrequested _ _ _ =>
    obtain rfl := List.mem_singleton.mp hrequest
    exact hrequested

/-- The keys behind the ciphers of a session key. -/
theorem deriveCrypto_eq_ok {p : Platform} {sessionK : Bytes} {enc : DatagramEncryptor}
    {dec : DatagramDecryptor} (h : deriveCrypto p sessionK = .ok (enc, dec)) :
    ∃ keydrv, HashKeyDerivator.create p sessionK shAes256Keylen shIvlen shSha1Outputlen =
        .ok keydrv ∧
      DatagramCipher.create p keydrv.mServerEncryptionKey keydrv.mServerIV
        keydrv.mServerMacKey = .ok enc ∧
      DatagramCipher.create p keydrv.mClientEncryptionKey keydrv.mClientIV
        keydrv.mClientMacKey = .ok dec := by
  unfold deriveCrypto at h
  cases hkeydrv : HashKeyDerivator.create p sessionK shAes256Keylen shIvlen shSha1Outputlen with
  | error e => simp [hkeydrv] at h
  | ok keydrv =>
    simp only [hkeydrv] at h
    obtain ⟨enc', henc, h⟩ := bind_eq_ok.mp h
    obtain ⟨dec', hdec, h⟩ := bind_eq_ok.mp h
    cases pure_eq_ok.mp h
    exact ⟨keydrv, rfl, henc, hdec⟩

/-- Outside the three successful ways every call resets the session. -/
theorem History.failure (h : History srv past s) (hprocess : s.process srv d = some st)
    (hfailed : ¬ Succeeded s st) : st.session.Cleared := by
  cases process_exit hprocess with
  | stuck hfault => exact absurd hfault h.alive
  | reset result response ver requests encrypted _ _ => exact cleared_resetState _
  | offered username srpA ver response hstate _ _ hresponse =>
    obtain ⟨-, -, -, -, rfl⟩ := enc_construct_P_message_success_eq_ok.mp hresponse
    exact absurd ⟨rfl, rfl, .inl ⟨hstate, rfl⟩⟩ hfailed
  | authenticated currentM1 currentM2 sessionK response hstate _ _ hresponse =>
    obtain ⟨-, -, rfl⟩ := enc_construct_Q_message_success_eq_ok.mp hresponse
    exact absurd ⟨rfl, rfl, .inr (.inl ⟨hstate, rfl⟩)⟩ hfailed
  | answered enc dec request response encryptedResponse hrequest _ _ _ =>
    exact absurd ⟨rfl, rfl, .inr (.inr ⟨hrequest.1, hrequest.1⟩)⟩ hfailed

/-- From a fresh session on, whatever datagrams arrive, the guarantees hold. -/
theorem session_secure (hrun : run srv past = some s) : Secure srv past s := by
  have h := history_of_run hrun
  refine ⟨?_, ?_, h.sessionK, fun d st hprocess => h.login hprocess, ?_,
    fun d st hprocess => h.failure hprocess⟩
  · obtain ⟨henc, hdec⟩ | ⟨-, enc, dec, -, henc, hdec⟩ := h.ciphers
    · rw [henc, hdec]
    · rw [henc, hdec, Option.isSome_some, Option.isSome_some]
  · intro hsome
    obtain ⟨henc, -⟩ | ⟨hbeta, -⟩ := h.ciphers
    · rw [henc] at hsome
      cases hsome
    · exact hbeta
  · intro d st hprocess request hmem
    obtain ⟨hstate, message, enc, dec, hparse, hcrypto, hdecrypt⟩ := requested_of_mem hprocess hmem
    obtain ⟨ver, hlogin, hK⟩ := h.loggedIn hstate
    obtain ⟨keydrv, hkeydrv, -, hdec⟩ :=
      deriveCrypto_eq_ok ((initCrypto_eq_ok h.ciphers).mp hcrypto)
    obtain ⟨ciphertext, -, -, rfl, hplain⟩ := decryptAndVerifyMac_eq_returns.mp hdecrypt
    exact ⟨hstate, ver, keydrv, dec, ciphertext, hlogin, hK ▸ hkeydrv, hdec, hparse, hplain⟩

end Guarantees

/-- A machine with a hash function of small values. -/
def samplePlatform : Platform where
  host := .littleEndian
  cipher _ block := block
  sha1 data := ⟨List.replicate 19 0 ++ [UInt8.ofNat ((data.map UInt8.toNat).sum % 7 + 1)], by simp⟩

/-- A server without users. -/
def sampleServer : ShellServer := ⟨samplePlatform, shellMath samplePlatform, fun _ => none, rfl⟩

/-- A server with the user `u`, whose password is `p`. -/
def sampleUserServer : ShellServer where
  platform := samplePlatform
  math := shellMath samplePlatform
  lookup username :=
    if username = string2bytes "u" then
      some ⟨string2bytes "u", [16], List.replicate 16 1⟩
    else
      none
  hash_eq := rfl

/-- The secret exponent of either side, 1101. -/
def sampleExponent : Except DsrpException Bytes := .ok (List.replicate 30 0 ++ [4, 77])

/-- The user logs in and asks for the uptime. -/
def sampleLogin : List Datagram :=
  let env : Environment := ⟨sampleExponent, 0, processApplicationDatagram fun _ => none⟩
  [⟨env, 1, clientMessage encMsgTypeA (string2bytes "u" ++ [0] ++ List.replicate 64 1)⟩,
    ⟨env, 2, clientMessage encMsgTypeB (List.replicate 19 0 ++ [6])⟩,
    ⟨env, 3, clientMessage encMsgTypeC (string2bytes "uptime" ++ List.replicate 12 0)⟩]

/-- The guarantees hold of a session in BETA that has answered the request. -/
theorem session_secure_uptime :
    ∃ s, run sampleUserServer sampleLogin = some s ∧ s.m_state = .beta ∧ s.m_enc.isSome = true ∧
      Secure sampleUserServer sampleLogin s := by
  have hsample : (run sampleUserServer sampleLogin).any
      (fun s => s.m_state = .beta ∧ s.m_enc.isSome = true) = true := by
    decide +kernel
  obtain ⟨s, hrun, hs⟩ := (Option.any_eq_true _ _).mp hsample
  obtain ⟨hbeta, henc⟩ := of_decide_eq_true hs
  exact ⟨s, hrun, hbeta, henc, session_secure hrun⟩

end Session

end San2.Shell
