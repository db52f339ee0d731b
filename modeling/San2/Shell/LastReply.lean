import San2.Shell.MainLoop

/-!
# What a session has sent last

A session answers a capsule with an old number by the capsule that it has sent last. A
client that is new to the server has nothing to do with that capsule, and yet it may take
it for the response to its first message. What it then reads is an offer exactly when the
session is in ALPHA.
-/

namespace San2.Shell

open Utils Network DragonSRP

namespace Session

/-- The response is read as an offer exactly in ALPHA, and then as that of the verificator. -/
def Offers (s : Session) (response : Bytes) : Prop :=
  ∀ srpSalt srpB, enc_parse_P_message response = .ok (0, srpSalt, srpB) ↔
    s.m_state = .alpha ∧ srpSalt = s.ver.salt ∧ srpB = s.ver.BB

/-- A message of another type is no offer. -/
theorem serverMessage_ne_offer {msgType errorCode : UInt8} {content : Bytes}
    (h : msgType ≠ encMsgTypeP) (srpSalt srpB : Bytes) :
    enc_parse_P_message (serverMessage msgType errorCode content) ≠ .ok (0, srpSalt, srpB) := by
  intro hparse
  obtain ⟨_, hheader, -⟩ := bind_eq_ok.mp hparse
  have htype : some msgType = some encMsgTypeP := (checkHeader_eq_ok.mp hheader).2.2
  exact h (Option.some.inj htype)

/-- Outside ALPHA everything but an offer will do. -/
theorem offers_of_ne_alpha {s : Session} {response : Bytes} (hstate : s.m_state ≠ .alpha)
    (h : ∀ srpSalt srpB, enc_parse_P_message response ≠ .ok (0, srpSalt, srpB)) :
    s.Offers response :=
  fun srpSalt srpB => iff_of_false (h srpSalt srpB) fun halpha => hstate halpha.1

/-- A refusal is no offer. -/
theorem enc_construct_P_message_fail_ne_offer {errorCode : UInt8} (h : errorCode ≠ 0)
    (srpSalt srpB : Bytes) :
    enc_parse_P_message (enc_construct_P_message_fail errorCode) ≠ .ok (0, srpSalt, srpB) := by
  rw [enc_parse_construct_P_message_fail h]
  intro heq
  exact h (Prod.mk.inj (Except.ok.inj heq)).1

/-- Where ZERO accepts the request, its answer is the one the new state would give. -/
theorem processZero_offers (srv : ShellServer) (env : Environment) (request : Bytes)
    (s : Session) (hresult : (s.processZero srv env request).result = true) :
    (s.processZero srv env request).session.Offers (s.processZero srv env request).response := by
  have hrefusal (t : Session) {code : UInt8} (hcode : code ≠ 0) :
      t.resetState.Offers (enc_construct_P_message_fail code) :=
    offers_of_ne_alpha (by simp [resetState]) (enc_construct_P_message_fail_ne_offer hcode)
  unfold processZero at hresult ⊢
  dsimp only at hresult ⊢
  cases hparse : enc_parse_A_message env.beyond request with
  | error code =>
    have hempty : s.resetState.m_srpA = [] := rfl
    cases hver : getVerificator srv.math srv.lookup env.random true
        s.resetState.m_srpUsername s.resetState.m_srpA with
    | error e =>
      cases e with
      | userNotFound what username => exact hrefusal _ (by decide)
      | dsrp e => exact hrefusal _ (by decide)
    | ok ver =>
      rw [hempty] at hver
      exact absurd hver (getVerificator_nil_ne_ok _ _ _ _ _ _)
  | ok parsed =>
    obtain ⟨username, srpA⟩ := parsed
    rw [hparse] at hresult
    dsimp only at hresult ⊢
    cases hver : getVerificator srv.math srv.lookup env.random true username srpA with
    | error e =>
      cases e with
      | userNotFound what username => exact hrefusal _ (by decide)
      | dsrp e => exact hrefusal _ (by decide)
    | ok ver =>
      rw [hver] at hresult
      dsimp only at hresult ⊢
      cases hresponse : enc_construct_P_message_success ver.salt ver.BB with
      | error code =>
        rw [hresponse] at hresult
        cases hresult
      | ok response =>
        intro srpSalt srpB
        rw [enc_parse_construct_P_message_success hresponse]
        simp [eq_comm]

/-- Where ALPHA accepts the request, its answer is the one the new state would give. -/
theorem processAlpha_offers {request : Bytes} {s : Session}
    (hresult : (s.processAlpha request).result = true) :
    (s.processAlpha request).session.Offers (s.processAlpha request).response := by
  have hrefusal (code : UInt8) : s.resetState.Offers (enc_construct_Q_message_fail code) :=
    offers_of_ne_alpha (by simp [resetState]) (serverMessage_ne_offer (by decide))
  unfold processAlpha at hresult ⊢
  cases hparse : enc_parse_B_message request with
  | error code => exact hrefusal _
  | ok currentM1 =>
    rw [hparse] at hresult
    dsimp only at hresult ⊢
    cases hauth : s.ver.authenticate currentM1 with
    | error e => exact hrefusal _
    | ok accepted =>
      obtain ⟨currentM2, sessionK⟩ := accepted
      rw [hauth] at hresult
      dsimp only at hresult ⊢
      cases hresponse : enc_construct_Q_message_success currentM2 with
      | error code =>
        rw [hresponse] at hresult
        cases hresult
      | ok response =>
        obtain ⟨-, -, rfl⟩ := enc_construct_Q_message_success_eq_ok.mp hresponse
        exact offers_of_ne_alpha (by simp) (serverMessage_ne_offer (by decide))

/-- Where BETA accepts the request, its answer is the one the new state would give. -/
theorem processBeta_offers {srv : ShellServer} {env : Environment} {sequenceNumber : UInt64}
    {request : Bytes} {s : Session} {st : Step} (hstate : s.m_state = .beta)
    (h : s.processBeta srv env sequenceNumber request = some st) (hresult : st.result = true) :
    st.session.Offers st.response := by
  unfold processBeta at h
  cases hparse : enc_parse_C_message request with
  | error code =>
    simp only [hparse, Option.some.injEq] at h
    subst h
    cases hresult
  | ok message =>
    cases hcrypto : s.initCrypto srv.platform with
    | error e =>
      simp only [hparse, hcrypto, Option.some.injEq] at h
      subst h
      cases hresult
    | ok ciphers =>
      simp only [hparse, hcrypto] at h
      split at h
      · cases h
      · cases h
        cases hresult
      · cases h
        cases hresult
      · cases h
        exact offers_of_ne_alpha (by simp [hstate]) (serverMessage_ne_offer (by decide))

/-- Whatever a session responds, it says whether the session has made an offer. -/
theorem process_offers {srv : ShellServer} {s : Session} {d : Datagram} {st : Step}
    (halive : s.m_state ≠ .fault) (h : s.process srv d = some st) (hresult : st.result = true) :
    st.session.Offers st.response := by
  unfold process processDatagram at h
  cases hstate : s.m_state with
  | zero =>
    simp only [hstate, Option.some.injEq] at h
    subst h
    exact processZero_offers srv d.env d.request s hresult
  | alpha =>
    simp only [hstate, Option.some.injEq] at h
    subst h
    exact processAlpha_offers hresult
  | beta =>
    simp only [hstate] at h
    exact processBeta_offers hstate h hresult
  | fault => exact absurd hstate halive

end Session

namespace ServerEnd

/-- A session of the given server that is either untouched or has sent last the response
to the request before the one that it expects. -/
structure Remembers (serverAddress : SanAddress) (serverPort : UInt16) (s : ServerEnd) : Prop where
  serverAddress : s.rx.m_serverAddress = serverAddress
  serverPort : s.rx.m_serverPort = serverPort
  last : (s.rx.m_expectedSeqNum = 1 ∧ s.session.m_state = .zero) ∨ ∃ response,
    Carries s.rx.m_serverAddress s.rx.m_clientPort s.rx.m_serverPort (s.rx.m_expectedSeqNum - 1)
      response s.rx.m_lastSerializedCapsule ∧ s.session.Offers response

/-- A successful step is remembered. -/
theorem Remembers.after {srv : ShellServer} {serverAddress : SanAddress} {serverPort : UInt16}
    {s : ServerEnd} (h : Remembers serverAddress serverPort s) (halive : s.session.m_state ≠ .fault)
    {a : Arrival} {seq : UInt64} {request : Bytes} {st : Step}
    (hprocess : s.session.process srv ⟨a.env, seq, request⟩ = some st)
    (hresult : st.result = true) : Remembers serverAddress serverPort (s.after srv a st) := by
  have hrx : (s.after srv a st).rx = { s.rx with
      m_expectedSeqNum := s.rx.m_expectedSeqNum + 1
      m_lastSerializedCapsule :=
        s.rx.serializedCapsule srv.platform.host a.object st.response } := by
    unfold ServerEnd.after
    rw [if_pos hresult]
  have hcarries := s.rx.carries srv.platform.host a.object st.response
  have hseq : s.rx.m_expectedSeqNum + 1 - 1 = s.rx.m_expectedSeqNum := UInt64.add_sub_cancel _ _
  rw [← hseq] at hcarries
  refine ⟨?_, ?_, .inr ⟨st.response, ?_, Session.process_offers halive hprocess hresult⟩⟩
  · rw [hrx]
    exact h.serverAddress
  · rw [hrx]
    exact h.serverPort
  · rw [hrx]
    exact hcarries

end ServerEnd

namespace MainLoop

/-- Every session serves the client it is stored under and remembers its last response. -/
def Remembering (srv : ShellServer) (serverAddress : SanAddress) (serverPort : UInt16)
    (loop : MainLoop) : Prop :=
  loop.sman.Every fun address port s =>
    s.Serves srv address port ∧ s.Remembers serverAddress serverPort

/-- **Step lemma**: a turn of the main loop keeps what every session remembers. -/
theorem Remembering.step {srv : ShellServer} {serverAddress : SanAddress} {serverPort : UInt16}
    {loop loop' : MainLoop} {turn : Turn} (h : loop.Remembering srv serverAddress serverPort)
    (hstep : loop.step srv turn = some loop') :
    loop'.Remembering srv serverAddress serverPort := by
  refine every_step (fun {address port s s' a} hs hcapsule => ?_) h hstep
  obtain ⟨hserves, hremembers⟩ := hs
  refine ⟨hserves.incommingCapsule hcapsule, ?_⟩
  obtain rfl | ⟨request, st, hprocess, hok, rfl⟩ := ServerEnd.incommingCapsule_eq_some hcapsule
  · exact hremembers
  · obtain ⟨past, hhistory⟩ := hserves.history
    exact hremembers.after hhistory.alive hprocess (hok rfl)

end MainLoop

end San2.Shell
