import San2.Shell.ShellExchange

/-!
# The datagrams that a session answers

A call of `processDatagram` has a response when its result is true. In ZERO that fails
for the logins whose answer does not fit into a P message, in ALPHA never, and in BETA
for everything but the C messages that verify and whose response can be encrypted.
-/

namespace San2.Shell

open Utils DragonSRP OsslConversion

namespace Session

/-- The salt of a user and the public value of the server have lengths that a P message
takes. -/
def Fits (srv : ShellServer) (usr : User) (b : Bytes) : Prop :=
  let B := bignum2bytes (srv.math.serverB (bytes2bignum usr.verificator) (bytes2bignum b))
  16 ≤ usr.salt.length ∧ usr.salt.length ≤ 64 ∧ 64 ≤ B.length ∧ B.length ≤ 1024

/-- A login that the server computes a challenge for and still cannot offer. -/
def Unofferable (srv : ShellServer) (d : Datagram) : Prop :=
  ∃ username srpA usr b, enc_parse_A_message d.env.beyond d.request = .ok (username, srpA) ∧
    srv.lookup username = some usr ∧ d.env.random = .ok b ∧
    (∃ s, srv.math.serverChallange username usr.salt usr.verificator srpA b true = .ok s) ∧
    ¬ Fits srv usr b

/-- A C message with the right digest for its number, whose decryption the application
answers with a response that the buffers have room for. -/
def Answerable (srv : ShellServer) (s : Session) (d : Datagram) : Prop :=
  ∃ enc dec ciphertext request, deriveCrypto srv.platform s.m_sessionK = .ok (enc, dec) ∧
    d.request = enc_construct_C_message
      (ciphertext ++ dec.truncDigest srv.platform ciphertext d.sequenceNumber) ∧
    0 < ciphertext.length ∧ ciphertext.length ≤ 60012 ∧
    d.sequenceNumber ≠ 0xFFFFFFFFFFFFFFFF ∧
    dec.aesCtr.encrypt srv.platform.host srv.platform.cipher ciphertext d.sequenceNumber =
      .ok request ∧
    ∃ response, d.env.application d.sequenceNumber request = (true, response) ∧
      0 < response.length ∧ response.length ≤ 60008

/-- The datagrams that a session has a response to. -/
def Answers (srv : ShellServer) (s : Session) (d : Datagram) : Prop :=
  match s.m_state with
  | .zero => ¬ Unofferable srv d
  | .alpha => True
  | .beta => Answerable srv s d
  | .fault => True

/-- What fits into a P message is what can be constructed as one. -/
theorem fits_iff {srv : ShellServer} {usr : User} {b : Bytes} :
    Fits srv usr b ↔ ∃ response, enc_construct_P_message_success usr.salt (bignum2bytes
      (srv.math.serverB (bytes2bignum usr.verificator) (bytes2bignum b))) = .ok response := by
  unfold Fits
  constructor
  · rintro ⟨hmin, hmax, hminB, hmaxB⟩
    exact ⟨_, enc_construct_P_message_success_eq_ok.mpr ⟨hmin, hmax, hminB, hmaxB, rfl⟩⟩
  · rintro ⟨response, hresponse⟩
    obtain ⟨hmin, hmax, hminB, hmaxB, -⟩ := enc_construct_P_message_success_eq_ok.mp hresponse
    exact ⟨hmin, hmax, hminB, hmaxB⟩

/-- A login cannot be offered when its verificator has no P message. -/
theorem unofferable_iff {srv : ShellServer} {d : Datagram} :
    Unofferable srv d ↔ ∃ username srpA ver,
      enc_parse_A_message d.env.beyond d.request = .ok (username, srpA) ∧
      getVerificator srv.math srv.lookup d.env.random true username srpA = .ok ver ∧
      ¬ ∃ response, enc_construct_P_message_success ver.salt ver.BB = .ok response := by
  have hsame {usr : User} {username srpA b : Bytes} {s : ServerChallange}
      (hserver : srv.math.serverChallange username usr.salt usr.verificator srpA b true = .ok s) :
      Fits srv usr b ↔ ∃ response, enc_construct_P_message_success
        (s.verificator username usr.salt).salt (s.verificator username usr.salt).BB =
          .ok response := by
    obtain ⟨-, -, hB, -⟩ := OsslMathImpl.serverChallange_eq_ok hserver
    rw [fits_iff, ← hB]
    rfl
  constructor
  · rintro ⟨username, srpA, usr, b, hparse, hlookup, hrandom, ⟨s, hserver⟩, hfits⟩
    have hver := getVerificator_eq_ok.mpr ⟨usr, b, s, hlookup, hrandom, hserver, rfl⟩
    exact ⟨username, srpA, _, hparse, hver, fun h => hfits ((hsame hserver).mpr h)⟩
  · rintro ⟨username, srpA, ver, hparse, hver, hresponse⟩
    obtain ⟨usr, b, s, hlookup, hrandom, hserver, rfl⟩ := getVerificator_eq_ok.mp hver
    exact ⟨username, srpA, usr, b, hparse, hlookup, hrandom, ⟨s, hserver⟩,
      fun h => hresponse ((hsame hserver).mp h)⟩

/-- In ZERO only the construction of the P message can fail. -/
theorem processZero_result_iff (srv : ShellServer) (s : Session) (d : Datagram) :
    (s.processZero srv d.env d.request).result = true ↔ ¬ Unofferable srv d := by
  rw [unofferable_iff]
  unfold processZero
  dsimp only
  cases hparse : enc_parse_A_message d.env.beyond d.request with
  | error code =>
    have hempty : s.resetState.m_srpA = [] := rfl
    refine iff_of_true ?_ (by simp)
    cases hver : getVerificator srv.math srv.lookup d.env.random true
        s.resetState.m_srpUsername s.resetState.m_srpA with
    | error e => cases e <;> rfl
    | ok ver =>
      rw [hempty] at hver
      exact absurd hver (getVerificator_nil_ne_ok _ _ _ _ _ _)
  | ok parsed =>
    obtain ⟨username, srpA⟩ := parsed
    dsimp only
    cases hver : getVerificator srv.math srv.lookup d.env.random true username srpA with
    | error e =>
      refine iff_of_true (by cases e <;> rfl) ?_
      rintro ⟨username', srpA', ver, hparse', hver', -⟩
      cases hparse'
      rw [hver] at hver'
      cases hver'
    | ok ver =>
      dsimp only
      cases hresponse : enc_construct_P_message_success ver.salt ver.BB with
      | error code =>
        refine iff_of_false (by simp) (not_not.mpr ?_)
        exact ⟨username, srpA, ver, rfl, hver, by simp [hresponse]⟩
      | ok response =>
        refine iff_of_true rfl ?_
        rintro ⟨username', srpA', ver', hparse', hver', hnone⟩
        cases hparse'
        rw [hver] at hver'
        cases hver'
        exact hnone ⟨response, hresponse⟩

section Reached

variable {srv : ShellServer} {past : List Datagram} {s : Session}

/-- The verificator of a session that has made an offer. -/
theorem Offer.length_verificator {a : Datagram} {ver : SrpVerificator}
    (h : Offer srv past a ver) : ver.KK.length = 40 ∧ ver.calc_M2.length = 20 := by
  obtain ⟨username, srpA, -, hver⟩ := h.verificator
  have hlength : srv.math.hash.outputLen = 20 := by
    rw [srv.hash_eq]
    rfl
  obtain ⟨hK, hM2⟩ := length_getVerificator hver
  omega

/-- In ALPHA every datagram has a response, because a proof of the server fits into its
message. -/
theorem processAlpha_result (h : History srv past s) (hstate : s.m_state = .alpha)
    (request : Bytes) : (s.processAlpha request).result = true := by
  obtain ⟨before, a, -, hoffer⟩ := h.offered hstate
  obtain ⟨-, hM2⟩ := hoffer.length_verificator
  unfold processAlpha
  cases enc_parse_B_message request with
  | error code => rfl
  | ok currentM1 =>
    dsimp only
    cases hauth : s.ver.authenticate currentM1 with
    | error e => rfl
    | ok accepted =>
      obtain ⟨currentM2, sessionK⟩ := accepted
      obtain ⟨-, -, rfl, -⟩ := SrpVerificator.authenticate_eq_ok.mp hauth
      dsimp only
      rw [enc_construct_Q_message_success_eq_ok.mpr ⟨by omega, by omega, rfl⟩]

/-- In BETA the ciphers can be made. -/
theorem initCrypto_of_beta (h : History srv past s) (hstate : s.m_state = .beta) :
    ∃ enc dec, s.initCrypto srv.platform = .ok (enc, dec) ∧
      deriveCrypto srv.platform s.m_sessionK = .ok (enc, dec) := by
  obtain ⟨ver, ⟨before, a, b, since, -, hoffer, -⟩, hK⟩ := h.loggedIn hstate
  have hlength := hoffer.length_verificator.1
  obtain ⟨clientCipher, serverCipher, -, hserver⟩ :=
    deriveCrypto_opposite srv.platform (K := s.m_sessionK) (by rw [hK]; omega)
  exact ⟨serverCipher, clientCipher, (initCrypto_eq_ok h.ciphers).mpr hserver, hserver⟩

/-- The inner call has a response when the message is verified and the response of the
application can be encrypted. -/
theorem processEncrpytedDatagram_returns_iff (p : Platform) (env : Environment)
    (enc : DatagramEncryptor) (dec : DatagramDecryptor) (sequenceNumber : UInt64)
    (encrpytedMessage : Bytes) :
    (∃ encryptedResponse, (processEncrpytedDatagram p env enc dec sequenceNumber
        encrpytedMessage).outcome = .returns (true, encryptedResponse)) ↔
      ∃ request response, DatagramDecryptor.decryptAndVerifyMac p dec bufferSize encrpytedMessage
          sequenceNumber = .returns request ∧
        env.application sequenceNumber request = (true, response) ∧
        0 < response.length ∧ response.length ≤ 60008 ∧
        sequenceNumber ≠ 0xFFFFFFFFFFFFFFFF := by
  have hbuffer : bufferSize = 60020 := rfl
  have htrunc : truncDigestSize = 12 := rfl
  have hpacket : aesMaxPacketOct = 65534 := rfl
  constructor
  · rintro ⟨encryptedResponse, h⟩
    obtain ⟨request, response, hdecrypt, happlication, hencrypt, -⟩ :=
      processEncrpytedDatagram_returns h
    obtain ⟨hpos, -, hseq, hroom⟩ := encryptAndAuthenticate_returns hencrypt
    exact ⟨request, response, hdecrypt, happlication, hpos, by omega, hseq⟩
  · rintro ⟨request, response, hdecrypt, happlication, hpos, hmax, hseq⟩
    obtain ⟨ciphertext, -, -, hencrypt⟩ := encryptAndAuthenticate_eq_returns p enc bufferSize
      hpos (by omega) hseq (by omega)
    obtain ⟨c, hc, -, rfl, -⟩ := decryptAndVerifyMac_eq_returns.mp hdecrypt
    have hne : (c ++ dec.truncDigest p c sequenceNumber).length ≠ 0 := by
      rw [List.length_append]
      omega
    unfold processEncrpytedDatagram
    rw [if_neg hne, hdecrypt]
    dsimp only
    rw [happlication]
    dsimp only
    rw [if_neg (Nat.ne_of_gt hpos), hencrypt]
    exact ⟨_, rfl⟩

/-- In BETA, after any history, a datagram gets an answer exactly when it is answerable. -/
theorem processBeta_result_iff (h : History srv past s) (hstate : s.m_state = .beta)
    (d : Datagram) :
    (∃ st, s.processBeta srv d.env d.sequenceNumber d.request = some st ∧ st.result = true) ↔
      Answerable srv s d := by
  have hbuffer : bufferSize = 60020 := rfl
  obtain ⟨enc, dec, hinit, hderive⟩ := initCrypto_of_beta h hstate
  have hinner (message : Bytes) := processEncrpytedDatagram_returns_iff srv.platform d.env enc dec
    d.sequenceNumber message
  unfold processBeta
  rw [hinit]
  cases hparse : enc_parse_C_message d.request with
  | error code =>
    refine iff_of_false (by simp) ?_
    rintro ⟨enc', dec', ciphertext, request, -, hrequest, -⟩
    rw [enc_parse_C_message_eq_ok.mpr hrequest] at hparse
    cases hparse
  | ok message =>
    have hrequest := enc_parse_C_message_eq_ok.mp hparse
    dsimp only
    constructor
    · rintro ⟨st, hst, hresult⟩
      split at hst
      · cases hst
      · cases hst
        cases hresult
      · cases hst
        cases hresult
      · rename_i encryptedResponse houtcome
        obtain ⟨request, response, hdecrypt, happlication, hpos, hmax, hseq⟩ :=
          (hinner message).mp ⟨encryptedResponse, houtcome⟩
        obtain ⟨ciphertext, hcipher, hroom, rfl, hplain⟩ :=
          decryptAndVerifyMac_eq_returns.mp hdecrypt
        exact ⟨enc, dec, ciphertext, request, hderive, hrequest, hcipher, by omega, hseq, hplain,
          response, happlication, hpos, hmax⟩
    · rintro ⟨enc', dec', ciphertext, request, hderive', hrequest', hcipher, hroom, hseq, hplain,
        response, happlication, hpos, hmax⟩
      obtain ⟨rfl, rfl⟩ := Prod.mk.inj (Except.ok.inj (hderive.symm.trans hderive'))
      have hmessage : message =
          ciphertext ++ dec.truncDigest srv.platform ciphertext d.sequenceNumber := by
        rw [hrequest', enc_parse_construct_C_message] at hparse
        exact (Except.ok.inj hparse).symm
      obtain ⟨encryptedResponse, houtcome⟩ := (hinner message).mpr ⟨request, response,
        decryptAndVerifyMac_eq_returns.mpr ⟨ciphertext, hcipher, by omega, hmessage, hplain⟩,
        happlication, hpos, hmax, hseq⟩
      rw [houtcome]
      exact ⟨_, rfl, rfl⟩

/-- Whatever has happened to a session, it has a response to exactly these datagrams. -/
theorem answers_iff (h : History srv past s) (d : Datagram) :
    (∃ st, s.process srv d = some st ∧ st.result = true) ↔ Answers srv s d := by
  unfold process processDatagram Answers
  cases hstate : s.m_state with
  | zero =>
    rw [← processZero_result_iff srv s d]
    constructor
    · rintro ⟨st, hst, hresult⟩
      rwa [← Option.some.inj hst] at hresult
    · intro hresult
      exact ⟨_, rfl, hresult⟩
  | alpha => exact iff_of_true ⟨_, rfl, processAlpha_result h hstate d.request⟩ trivial
  | beta => exact processBeta_result_iff h hstate d
  | fault => exact absurd hstate h.alive

end Reached

end Session

end San2.Shell
