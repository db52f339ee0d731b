import San2.Shell.ShellExchange

/-!
# The buffers of the shell's ciphers

Both ends of the shell decrypt and encrypt into buffers of a fixed size, while the
length of a message comes from the network and the length of a response from the
parameters of the node. Every call of a cipher is recorded here with the length that is
passed to it and the size of the buffer that it gets.
-/

namespace San2.Shell

open Utils Network DragonSRP

/-- The conversion of a `size()` to `unsigned int`. -/
def unsignedInt (size : ℕ) : ℕ := size % 4294967296

/-- The conversion to `unsigned int` keeps every length below 2³². -/
theorem unsignedInt_of_lt {size : ℕ} (h : size < 4294967296) : unsignedInt size = size :=
  Nat.mod_eq_of_lt h

/-- The conversion to `unsigned int` never makes a length larger. -/
theorem unsignedInt_le (size : ℕ) : unsignedInt size ≤ size := Nat.mod_le _ _

/-- A call of a cipher that writes to a buffer of its caller. -/
inductive CipherCall
  | decryptAndVerifyMac (dataInLen capacity : ℕ)
  | encryptAndAuthenticate (plaintextLen capacity : ℕ)
  deriving DecidableEq, Repr

/-- The call has room for everything it writes: the ciphertext with the sequence number
behind it, or the ciphertext with its digest. -/
def CipherCall.Fits : CipherCall → Prop
  | .decryptAndVerifyMac dataInLen capacity => dataInLen - truncDigestSize + 8 ≤ capacity
  | .encryptAndAuthenticate plaintextLen capacity => plaintextLen + truncDigestSize ≤ capacity

/-- The decryption of the server fits into its buffer up to 60024 bytes behind the message
header. -/
theorem fits_decrypt_iff (dataInLen : ℕ) :
    (CipherCall.decryptAndVerifyMac dataInLen Session.bufferSize).Fits ↔ dataInLen ≤ 60024 := by
  have hbuffer : Session.bufferSize = 60020 := rfl
  have htrunc : truncDigestSize = 12 := rfl
  unfold CipherCall.Fits
  omega

/-- The encryption of an answer fits into the server's buffer up to 60008 bytes of text. -/
theorem fits_encrypt_iff (plaintextLen : ℕ) :
    (CipherCall.encryptAndAuthenticate plaintextLen Session.bufferSize).Fits ↔
      plaintextLen ≤ 60008 := by
  have hbuffer : Session.bufferSize = 60020 := rfl
  have htrunc : truncDigestSize = 12 := rfl
  unfold CipherCall.Fits
  omega

/-- A datagram that the cipher of the other end has made of a text. -/
def Authentic (p : Platform) (cipher : DatagramCipher) (sequenceNumber : UInt64)
    (datagram text : Bytes) : Prop :=
  ∃ ciphertext : Bytes, 0 < ciphertext.length ∧
    datagram = ciphertext ++ cipher.truncDigest p ciphertext sequenceNumber ∧
    cipher.aesCtr.encrypt p.host p.cipher ciphertext sequenceNumber = .ok text

/-- What is decrypted is authentic and has had room. -/
theorem decryptAndVerifyMac_eq_returns_iff {p : Platform} {dec : DatagramDecryptor}
    {datagram text : Bytes} {sequenceNumber : UInt64} :
    DatagramDecryptor.decryptAndVerifyMac p dec Session.bufferSize datagram sequenceNumber =
        .returns text ↔
      datagram.length ≤ 60024 ∧ Authentic p dec sequenceNumber datagram text := by
  have hbuffer : Session.bufferSize = 60020 := rfl
  have htrunc : truncDigestSize = 12 := rfl
  rw [decryptAndVerifyMac_eq_returns]
  constructor
  · rintro ⟨ciphertext, hpos, hroom, hdatagram, hdecrypt⟩
    refine ⟨?_, ciphertext, hpos, hdatagram, hdecrypt⟩
    rw [hdatagram, List.length_append, DatagramCipher.length_truncDigest]
    omega
  · rintro ⟨hlength, ciphertext, hpos, hdatagram, hdecrypt⟩
    rw [hdatagram, List.length_append, DatagramCipher.length_truncDigest] at hlength
    exact ⟨ciphertext, hpos, by omega, hdatagram, hdecrypt⟩

/-- A call that writes behind its buffer has had no room. -/
theorem not_fits_of_decrypt_fault {p : Platform} {dec : DatagramDecryptor} {capacity : ℕ}
    {datagram : Bytes} {sequenceNumber : UInt64}
    (h : DatagramDecryptor.decryptAndVerifyMac p dec capacity datagram sequenceNumber = .fault) :
    ¬(CipherCall.decryptAndVerifyMac datagram.length capacity).Fits :=
  Nat.not_le.mpr (decryptAndVerifyMac_fault h)

namespace Session

/-- The call that encrypts the response to a request. -/
def responseCalls (env : Environment) (sequenceNumber : UInt64) (applicationRequest : Bytes) :
    List CipherCall :=
  match env.application sequenceNumber applicationRequest with
  | (false, _) => []
  | (true, applicationResponse) =>
    if applicationResponse.length = 0 then []
    else [.encryptAndAuthenticate (unsignedInt applicationResponse.length) bufferSize]

/-- The calls of `processEncrpytedDatagram`. A cipher sees as many bytes as the length
that is passed to it says. -/
def encryptedCalls (p : Platform) (env : Environment) (dec : DatagramDecryptor)
    (sequenceNumber : UInt64) (encrpytedMessage : Bytes) : List CipherCall :=
  if encrpytedMessage.length = 0 then []
  else
    let dataInLen := unsignedInt encrpytedMessage.length
    .decryptAndVerifyMac dataInLen bufferSize ::
      match DatagramDecryptor.decryptAndVerifyMac p dec bufferSize
          (encrpytedMessage.take dataInLen) sequenceNumber with
      | .returns applicationRequest => responseCalls env sequenceNumber applicationRequest
      | _ => []

/-- The calls of `processDatagram`: only the state BETA uses the ciphers. -/
def cipherCalls (srv : ShellServer) (env : Environment) (sequenceNumber : UInt64)
    (request : Bytes) (s : Session) : List CipherCall :=
  match s.m_state with
  | .beta =>
    match enc_parse_C_message request with
    | .error _ => []
    | .ok encrpytedMessage =>
      match s.initCrypto srv.platform with
      | .error _ => []
      | .ok (_, dec) => encryptedCalls srv.platform env dec sequenceNumber encrpytedMessage
  | _ => []

/-- A C message that is not empty is always decrypted. -/
theorem decrypt_mem_cipherCalls {srv : ShellServer} {s : Session} {encrpytedMessage : Bytes}
    {enc : DatagramEncryptor} {dec : DatagramDecryptor} (env : Environment)
    (sequenceNumber : UInt64) (hstate : s.m_state = .beta)
    (hinit : s.initCrypto srv.platform = .ok (enc, dec)) (hne : encrpytedMessage.length ≠ 0) :
    .decryptAndVerifyMac (unsignedInt encrpytedMessage.length) bufferSize ∈
      s.cipherCalls srv env sequenceNumber (enc_construct_C_message encrpytedMessage) := by
  unfold cipherCalls encryptedCalls
  rw [hstate, enc_parse_construct_C_message, hinit]
  dsimp only
  rw [if_neg hne]
  exact List.mem_cons_self

/-- With calls that fit nothing is written behind a buffer. -/
theorem processEncrpytedDatagram_ne_fault {p : Platform} {env : Environment}
    (enc : DatagramEncryptor) {dec : DatagramDecryptor} {sequenceNumber : UInt64}
    {encrpytedMessage : Bytes} (hlength : encrpytedMessage.length < 4294967296)
    (h : ∀ call ∈ encryptedCalls p env dec sequenceNumber encrpytedMessage, call.Fits) :
    (processEncrpytedDatagram p env enc dec sequenceNumber encrpytedMessage).outcome ≠
      .fault := by
  unfold processEncrpytedDatagram
  unfold encryptedCalls at h
  by_cases hempty : encrpytedMessage.length = 0
  · rw [if_pos hempty]
    simp
  rw [if_neg hempty] at h ⊢
  simp only [unsignedInt_of_lt hlength, List.take_length] at h
  cases hdecrypt : DatagramDecryptor.decryptAndVerifyMac p dec bufferSize encrpytedMessage
      sequenceNumber with
  | fault => exact absurd (h _ List.mem_cons_self) (not_fits_of_decrypt_fault hdecrypt)
  | throws e => simp
  | returns applicationRequest =>
    rcases happlication : env.application sequenceNumber applicationRequest with
      ⟨ok, applicationResponse⟩
    cases ok with
    | false =>
      simp [happlication]
    | true =>
      by_cases hnothing : applicationResponse.length = 0
      · simp only [happlication, hnothing, if_true]
        simp
      simp only [responseCalls, hdecrypt, happlication, hnothing, if_false] at h ⊢
      cases hencrypt : DatagramEncryptor.encryptAndAuthenticate p enc bufferSize
          applicationResponse sequenceNumber with
      | fault =>
        obtain ⟨hmax, hroom⟩ := encryptAndAuthenticate_fault hencrypt
        have hpacket : aesMaxPacketOct = 65534 := rfl
        have hfits := h _ (List.mem_cons_of_mem _ List.mem_cons_self)
        rw [unsignedInt_of_lt (by omega)] at hfits
        exact absurd hfits (Nat.not_le.mpr hroom)
      | throws e => simp
      | returns encrpytedResponse => simp

/-- The length of a parameter of the node, 0 if the node does not give it. -/
def parameterLength (getParameter : String → Option Bytes) (name : String) : ℕ :=
  ((getParameter name).getD []).length

/-- The parameter that a request asks for leaves a response that fits. To the version the
server adds its own. -/
structure ParameterFits (getParameter : String → Option Bytes) (applicationRequest : Bytes) :
    Prop where
  hostname : applicationRequest = string2bytes "hostname" →
    unsignedInt (parameterLength getParameter "hostname") ≤ 60008
  uptime : applicationRequest = string2bytes "uptime" →
    unsignedInt (parameterLength getParameter "uptime") ≤ 60008
  version : applicationRequest = string2bytes "version" →
    unsignedInt (parameterLength getParameter "version" + 25) ≤ 60008
  peers : applicationRequest = string2bytes "peers" →
    unsignedInt (parameterLength getParameter "peers") ≤ 60008

/-- "Unknown command" takes the place of an empty result, and both fit. -/
theorem unknown_command_fits_iff (result : Bytes) :
    unsignedInt (if result.length = 0 then string2bytes "Unknown command"
      else result).length ≤ 60008 ↔ unsignedInt result.length ≤ 60008 := by
  split_ifs with hempty
  · rw [hempty]
    exact iff_of_true (by decide) (by decide)
  · exact Iff.rfl

/-- The answer to a command is never empty. -/
theorem unknown_command_length_ne_zero (result : Bytes) :
    (if result.length = 0 then string2bytes "Unknown command" else result).length ≠ 0 := by
  split_ifs with hempty
  · decide
  · exact hempty

/-- The response fits exactly if the parameter leaves room for it. -/
theorem processApplicationDatagram_fits_iff (getParameter : String → Option Bytes)
    (sequenceNumber : UInt64) (applicationRequest : Bytes) :
    unsignedInt (processApplicationDatagram getParameter sequenceNumber
      applicationRequest).2.length ≤ 60008 ↔ ParameterFits getParameter applicationRequest := by
  have hversion : (string2bytes "\nShell server version 1.0").length = 25 := by decide
  have hu : string2bytes "uptime" ≠ string2bytes "hostname" := by decide
  have hv : string2bytes "version" ≠ string2bytes "hostname" := by decide
  have hv' : string2bytes "version" ≠ string2bytes "uptime" := by decide
  have hp : string2bytes "peers" ≠ string2bytes "hostname" := by decide
  have hp' : string2bytes "peers" ≠ string2bytes "uptime" := by decide
  have hp'' : string2bytes "peers" ≠ string2bytes "version" := by decide
  unfold processApplicationDatagram
  rw [unknown_command_fits_iff]
  constructor
  · intro h
    refine ⟨?_, ?_, ?_, ?_⟩
    · intro hname
      rwa [if_pos hname] at h
    · intro hname
      rw [hname] at h
      rwa [if_neg hu, if_pos rfl] at h
    · intro hname
      rw [hname] at h
      rwa [if_neg hv, if_neg hv', if_pos rfl, List.length_append, hversion] at h
    · intro hname
      rw [hname] at h
      rwa [if_neg hp, if_neg hp', if_neg hp'', if_pos rfl] at h
  · rintro ⟨hhostname, huptime, hversionFits, hpeers⟩
    split_ifs with h₁ h₂ h₃ h₄
    · exact hhostname h₁
    · exact huptime h₂
    · rw [List.length_append, hversion]
      exact hversionFits h₃
    · exact hpeers h₄
    · decide

/-- The lengths with which a protected request and the response to it fit. -/
structure ExchangeFits (p : Platform) (getParameter : String → Option Bytes)
    (dec : DatagramDecryptor) (sequenceNumber : UInt64) (encrpytedMessage : Bytes) : Prop where
  request : unsignedInt encrpytedMessage.length ≤ 60024
  response : ∀ applicationRequest,
    Authentic p dec sequenceNumber
      (encrpytedMessage.take (unsignedInt encrpytedMessage.length)) applicationRequest →
      ParameterFits getParameter applicationRequest

/-- The one call an answer leads to, on the application as it is, fits exactly when the answer to
the request does. -/
theorem responseCalls_fit_iff (env : Environment) (getParameter : String → Option Bytes)
    (sequenceNumber : UInt64) (applicationRequest : Bytes) :
    (∀ call ∈ responseCalls { env with application := processApplicationDatagram getParameter }
      sequenceNumber applicationRequest, call.Fits) ↔
      ParameterFits getParameter applicationRequest := by
  rw [← processApplicationDatagram_fits_iff getParameter sequenceNumber, ← fits_encrypt_iff]
  have hnonempty : (processApplicationDatagram getParameter sequenceNumber
      applicationRequest).2.length ≠ 0 := unknown_command_length_ne_zero _
  have hcalls : responseCalls { env with application := processApplicationDatagram getParameter }
      sequenceNumber applicationRequest =
        [.encryptAndAuthenticate (unsignedInt (processApplicationDatagram getParameter
          sequenceNumber applicationRequest).2.length) bufferSize] := if_neg hnonempty
  rw [hcalls, List.forall_mem_singleton]

/-- The calls for a C message fit exactly when the message does and, once it decrypts, its answer
does. -/
theorem encryptedCalls_fit_iff (p : Platform) (env : Environment)
    (getParameter : String → Option Bytes) (dec : DatagramDecryptor) (sequenceNumber : UInt64)
    (encrpytedMessage : Bytes) :
    (∀ call ∈ encryptedCalls p { env with application := processApplicationDatagram getParameter }
      dec sequenceNumber encrpytedMessage, call.Fits) ↔
      ExchangeFits p getParameter dec sequenceNumber encrpytedMessage := by
  have hpassed : (encrpytedMessage.take (unsignedInt encrpytedMessage.length)).length =
      unsignedInt encrpytedMessage.length := by
    rw [List.length_take, Nat.min_eq_left (unsignedInt_le _)]
  unfold encryptedCalls
  by_cases hempty : encrpytedMessage.length = 0
  · -- an empty message is nothing that a cipher makes
    rw [if_pos hempty]
    refine iff_of_true (by simp) ⟨by rw [hempty]; decide, ?_⟩
    rintro applicationRequest ⟨ciphertext, hpos, hmessage, -⟩
    have hlength := congrArg List.length hmessage
    rw [hpassed, hempty, List.length_append, DatagramCipher.length_truncDigest] at hlength
    have hzero : unsignedInt 0 = 0 := rfl
    omega
  rw [if_neg hempty]
  dsimp only
  rw [List.forall_mem_cons, fits_decrypt_iff]
  constructor
  · rintro ⟨hrequest, hrest⟩
    refine ⟨hrequest, ?_⟩
    intro applicationRequest hauthentic
    have hdecrypt := decryptAndVerifyMac_eq_returns_iff.mpr ⟨hpassed.trans_le hrequest, hauthentic⟩
    rw [hdecrypt] at hrest
    exact (responseCalls_fit_iff env getParameter sequenceNumber applicationRequest).mp hrest
  · rintro ⟨hrequest, hresponse⟩
    refine ⟨hrequest, ?_⟩
    cases hdecrypt : DatagramDecryptor.decryptAndVerifyMac p dec bufferSize
        (encrpytedMessage.take (unsignedInt encrpytedMessage.length)) sequenceNumber with
    | fault => simp
    | throws e => simp
    | returns applicationRequest =>
      obtain ⟨-, hauthentic⟩ := decryptAndVerifyMac_eq_returns_iff.mp hdecrypt
      exact (responseCalls_fit_iff env getParameter sequenceNumber applicationRequest).mpr
        (hresponse applicationRequest hauthentic)

/-- What a C message in the state BETA must be like. -/
def MessageFits (srv : ShellServer) (getParameter : String → Option Bytes)
    (sequenceNumber : UInt64) (request : Bytes) (s : Session) : Prop :=
  ∀ encrpytedMessage enc dec, s.m_state = .beta →
    enc_parse_C_message request = .ok encrpytedMessage →
    s.initCrypto srv.platform = .ok (enc, dec) →
      ExchangeFits srv.platform getParameter dec sequenceNumber encrpytedMessage

/-- The calls for any message in any state of the session fit exactly when, in BETA, those for the
C message do. -/
theorem cipherCalls_fit_iff (srv : ShellServer) (env : Environment)
    (getParameter : String → Option Bytes) (sequenceNumber : UInt64) (request : Bytes)
    (s : Session) :
    (∀ call ∈ cipherCalls srv { env with application := processApplicationDatagram getParameter }
      sequenceNumber request s, call.Fits) ↔
      MessageFits srv getParameter sequenceNumber request s := by
  unfold cipherCalls MessageFits
  cases s.m_state with
  | beta =>
    cases hparse : enc_parse_C_message request with
    | error code => simp
    | ok encrpytedMessage =>
      cases hinit : s.initCrypto srv.platform with
      | error e => simp
      | ok ciphers =>
        obtain ⟨enc, dec⟩ := ciphers
        simp [encryptedCalls_fit_iff]
  | zero => simp
  | alpha => simp
  | fault => simp

end Session

namespace ClientSession

/-- The calls of `getShellServerResponse` behind `sendReliableMessage`. -/
def responseCalls (serverResponse : Bytes) : List CipherCall :=
  match enc_parse_R_message serverResponse with
  | .error _ => []
  | .ok (encryptedResponse, errorCode) =>
    if errorCode ≠ 0 then []
    else [.decryptAndVerifyMac (unsignedInt encryptedResponse.length) Session.bufferSize]

/-- The calls of `getShellServerResponse`. -/
def cipherCalls (p : Platform) (tx : StopWaitTx) (encryptor : DatagramEncryptor)
    (connector : ℕ → Try) (shellRequest : Bytes) : List CipherCall :=
  if shMaxMsglen < shellRequest.length then []
  else
    .encryptAndAuthenticate (unsignedInt shellRequest.length) Session.bufferSize ::
      match DatagramEncryptor.encryptAndAuthenticate p encryptor Session.bufferSize shellRequest
          tx.getNextSequenceNumber with
      | .returns _ =>
        match tx.sendReliableMessage p.host connector with
        | ((false, _), _) => []
        | ((true, serverResponse), _) => responseCalls serverResponse
      | _ => []

/-- With calls that fit nothing is written behind a buffer. -/
theorem readResponse_ne_fault {p : Platform} {decryptor : DatagramDecryptor}
    {sequenceNumber : UInt64} {serverResponse : Bytes}
    (hlength : serverResponse.length < 4294967296)
    (h : ∀ call ∈ responseCalls serverResponse, call.Fits) :
    readResponse p decryptor sequenceNumber serverResponse ≠ .fault := by
  unfold readResponse
  unfold responseCalls at h
  cases hparse : enc_parse_R_message serverResponse with
  | error code => simp
  | ok fields =>
    obtain ⟨encryptedResponse, errorCode⟩ := fields
    by_cases herror : errorCode = 0
    · have hshorter : encryptedResponse.length ≤ serverResponse.length := by
        obtain ⟨_, -, hfields⟩ := bind_eq_ok.mp hparse
        rw [← (Prod.mk.inj (pure_eq_ok.mp hfields)).1, List.length_drop]
        exact Nat.sub_le _ _
      simp only [hparse, herror, ne_eq, not_true_eq_false, if_false, List.forall_mem_singleton,
        unsignedInt_of_lt (hshorter.trans_lt hlength)] at h ⊢
      cases hdecrypt : DatagramDecryptor.decryptAndVerifyMac p decryptor Session.bufferSize
          encryptedResponse sequenceNumber with
      | fault => exact absurd h (not_fits_of_decrypt_fault hdecrypt)
      | throws e => simp
      | returns shellResponse => simp
    · simp [herror]

/-- What a response from the network must be like. -/
def ResponseFits (serverResponse : Bytes) : Prop :=
  ∀ encryptedResponse, enc_parse_R_message serverResponse = .ok (encryptedResponse, 0) →
    unsignedInt encryptedResponse.length ≤ 60024

/-- On the client's side the call for a response fits exactly when the response does. -/
theorem responseCalls_fit_iff (serverResponse : Bytes) :
    (∀ call ∈ responseCalls serverResponse, call.Fits) ↔ ResponseFits serverResponse := by
  unfold responseCalls ResponseFits
  cases hparse : enc_parse_R_message serverResponse with
  | error code => simp
  | ok fields =>
    obtain ⟨encryptedResponse, errorCode⟩ := fields
    by_cases herror : errorCode = 0
    · simp [herror, fits_decrypt_iff]
    · simp [herror]

/-- What the response to a request of the client must be like, if it gets one. -/
def ReceivedFits (p : Platform) (tx : StopWaitTx) (connector : ℕ → Try) (shellRequest : Bytes) :
    Prop :=
  ∀ serverResponse tx', 0 < shellRequest.length → shellRequest.length ≤ shMaxMsglen →
    tx.m_expectedSeqNum ≠ 0xFFFFFFFFFFFFFFFF →
    tx.sendReliableMessage p.host connector = ((true, serverResponse), tx') →
      ResponseFits serverResponse

/-- The request always fits. -/
theorem cipherCalls_fit_iff (p : Platform) (tx : StopWaitTx) (encryptor : DatagramEncryptor)
    (connector : ℕ → Try) (shellRequest : Bytes) :
    (∀ call ∈ cipherCalls p tx encryptor connector shellRequest, call.Fits) ↔
      ReceivedFits p tx connector shellRequest := by
  have hbuffer : Session.bufferSize = 60020 := rfl
  have htrunc : truncDigestSize = 12 := rfl
  have hpacket : aesMaxPacketOct = 65534 := rfl
  have hmsg : shMaxMsglen = 60000 := rfl
  unfold cipherCalls
  by_cases hlong : shMaxMsglen < shellRequest.length
  · rw [if_pos hlong]
    refine iff_of_true (by simp) ?_
    intro serverResponse tx' hpos hmax
    omega
  rw [if_neg hlong, List.forall_mem_cons, fits_encrypt_iff]
  have hrequest : unsignedInt shellRequest.length ≤ 60008 :=
    (unsignedInt_le _).trans (by omega)
  constructor
  · rintro ⟨-, hrest⟩ serverResponse tx' hpos hmax hseq hsend
    obtain ⟨ciphertext, -, -, hencrypt⟩ := encryptAndAuthenticate_eq_returns p encryptor
      Session.bufferSize hpos (by omega) hseq (by omega)
    rw [StopWaitTx.getNextSequenceNumber, hencrypt, hsend] at hrest
    exact (responseCalls_fit_iff serverResponse).mp hrest
  · intro h
    refine ⟨hrequest, ?_⟩
    cases hencrypt : DatagramEncryptor.encryptAndAuthenticate p encryptor Session.bufferSize
        shellRequest tx.getNextSequenceNumber with
    | fault => simp
    | throws e => simp
    | returns datagram =>
      obtain ⟨hpos, -, hseq, -⟩ := encryptAndAuthenticate_returns hencrypt
      rcases hsend : tx.sendReliableMessage p.host connector with ⟨⟨ok, serverResponse⟩, tx'⟩
      cases ok with
      | false => simp
      | true =>
        have hfits := h serverResponse tx' hpos (not_lt.mp hlong) hseq hsend
        exact (responseCalls_fit_iff serverResponse).mpr hfits

end ClientSession

/-- The buffers of both ends are large enough exactly for the messages, parameters and
responses that fit. -/
theorem cipher_buffers_suffice_iff (srv : ShellServer) (env : Environment)
    (getParameter : String → Option Bytes) (sequenceNumber : UInt64) (request : Bytes)
    (s : Session) (p : Platform) (tx : StopWaitTx) (encryptor : DatagramEncryptor)
    (connector : ℕ → Try) (shellRequest : Bytes) :
    ((∀ call ∈ s.cipherCalls srv
        { env with application := processApplicationDatagram getParameter } sequenceNumber request,
        call.Fits) ↔ s.MessageFits srv getParameter sequenceNumber request) ∧
      ((∀ call ∈ ClientSession.cipherCalls p tx encryptor connector shellRequest, call.Fits) ↔
        ClientSession.ReceivedFits p tx connector shellRequest) :=
  ⟨Session.cipherCalls_fit_iff srv env getParameter sequenceNumber request s,
    ClientSession.cipherCalls_fit_iff p tx encryptor connector shellRequest⟩

/-- A C message with 60025 zeros makes the server decrypt 60025 bytes, for which its buffer
of 60020 bytes is one byte too short. -/
theorem server_buffer_too_short :
    ∃ call ∈ sampleBeta.cipherCalls Session.sampleServer
        ⟨.ok [], 0, processApplicationDatagram fun _ => none⟩ 3
        (enc_construct_C_message (List.replicate 60025 0)), ¬call.Fits := by
  obtain ⟨clientCipher, serverCipher, -, hserver⟩ :=
    deriveCrypto_opposite Session.samplePlatform
      (by decide : 16 ≤ (List.replicate 16 (1 : UInt8)).length)
  have hinit : sampleBeta.initCrypto Session.samplePlatform = .ok (serverCipher, clientCipher) :=
    hserver
  have hlength : (List.replicate 60025 (0 : UInt8)).length = 60025 := List.length_replicate
  have hne : (List.replicate 60025 (0 : UInt8)).length ≠ 0 := by
    rw [hlength]
    decide
  have hcall := @Session.decrypt_mem_cipherCalls Session.sampleServer sampleBeta _ _ _
    ⟨.ok [], 0, processApplicationDatagram fun _ => none⟩ 3 rfl hinit hne
  rw [hlength] at hcall
  refine ⟨_, hcall, ?_⟩
  rw [fits_decrypt_iff]
  decide

end San2.Shell
