import San2.Crypto.Datagram
import San2.Crypto.SrpAuthentication
import San2.Shell.MessageConstructor
import San2.Library.Execution

/-!
# The sessions of the shell server

A `Session` receives the requests of one client. It starts in the state ZERO,
where an A message offers a login and leads to ALPHA; there a B message with the
right proof leads to BETA, where C messages are decrypted and passed to the
application. Whatever goes wrong resets the session.

Next to its result every call reports two things that the code does not return:
what it passed to `processApplicationDatagram` and to `encryptAndAuthenticate`.
-/

namespace San2.Shell

open Utils DragonSRP

/-- `SH_AES256_KEYLEN` -/
abbrev shAes256Keylen : ℕ := 32

/-- `SH_IVLEN` -/
abbrev shIvlen : ℕ := 6

/-- `SH_SHA1_OUTPUTLEN` -/
abbrev shSha1Outputlen : ℕ := 20

/-- `SH_MAX_MSGLEN` -/
abbrev shMaxMsglen : ℕ := 60000

/-- `SH_ERRORCODE_SRPERROR` -/
abbrev shErrorcodeSrpError : UInt8 := 2

/-- `SH_ERRORCODE_PARSINGFAILED` -/
abbrev shErrorcodeParsingFailed : UInt8 := 3

/-- `SH_ERRORCODE_USERNOTFOUND` -/
abbrev shErrorcodeUserNotFound : UInt8 := 4

/-- `SH_ERRORCODE_AUTHENTICATIONFAILED` -/
abbrev shErrorcodeAuthenticationFailed : UInt8 := 5

/-- `SH_SRV_STATE_ZERO` and the other states. -/
inductive SrvState
  | zero
  | alpha
  | beta
  | fault
  deriving DecidableEq, Repr

/-- What all sessions of a server share. The computations run on SHA-1. -/
structure ShellServer where
  platform : Platform
  math : OsslMathImpl
  lookup : LookupInterface
  hash_eq : math.hash = platform.osslSha1

/-- `math(hash, ng)` of a session, see `create_shellMath`. -/
def shellMath (p : Platform) : OsslMathImpl :=
  let ng := Ng.predefined1024
  let both := resize (ng.N ++ [0]) (2 * ng.N.length - ng.g.length) ++ ng.g
  ⟨p.osslSha1, OsslConversion.bytes2bignum ng.N, OsslConversion.bytes2bignum ng.g,
    OsslConversion.bytes2bignum (p.osslSha1.digest both)⟩

/-- The server's arithmetic can be set up for the prime of 1024 bits. -/
theorem create_shellMath (p : Platform) :
    OsslMathImpl.create p.osslSha1 Ng.predefined1024 = some (shellMath p) := by
  have hlength : ¬ 2 * Ng.predefined1024.N.length < Ng.predefined1024.g.length := by
    simp [Ng.predefined1024]
  unfold OsslMathImpl.create
  rw [if_neg hlength]
  rfl

/-- What one call takes from outside: the outcome of `getRandom(32)`, the byte behind
the request in memory, and the answers of `processApplicationDatagram`. -/
structure Environment where
  random : Except DsrpException Bytes
  beyond : UInt8
  application : UInt64 → Bytes → Bool × Bytes

/-- `Session::processApplicationDatagram` on a connector whose `getParameter` returns
the given parameters. -/
def processApplicationDatagram (getParameter : String → Option Bytes) (_sequenceNumber : UInt64)
    (applicationRequest : Bytes) : Bool × Bytes :=
  let result :=
    if applicationRequest = string2bytes "hostname" then (getParameter "hostname").getD []
    else if applicationRequest = string2bytes "uptime" then (getParameter "uptime").getD []
    else if applicationRequest = string2bytes "version" then
      (getParameter "version").getD [] ++ string2bytes "\nShell server version 1.0"
    else if applicationRequest = string2bytes "peers" then (getParameter "peers").getD []
    else []
  (true, if result.length = 0 then string2bytes "Unknown command" else result)

/-- The members of `Session` that `processDatagram` reads or writes. -/
structure Session where
  m_state : SrvState
  m_srpUsername : Bytes
  m_srpA : Bytes
  m_sessionK : Bytes
  ver : SrpVerificator
  m_enc : Option DatagramEncryptor
  m_dec : Option DatagramDecryptor
  deriving DecidableEq

/-- What one call of `processDatagram` does. -/
structure Step where
  result : Bool
  response : Bytes
  session : Session
  /-- The requests passed to `processApplicationDatagram`. -/
  applicationRequests : List Bytes
  /-- The plaintexts passed to `encryptAndAuthenticate`. -/
  encrypted : List (UInt64 × Bytes)
  deriving DecidableEq

/-- What one call of `processEncrpytedDatagram` does. -/
structure EncryptedStep where
  outcome : Outcome (Bool × Bytes)
  applicationRequests : List Bytes
  encrypted : List (UInt64 × Bytes)
  deriving DecidableEq

namespace Session

/-- The constructor. -/
def create : Session := ⟨.zero, [], [], [], {}, none, none⟩

/-- `ver` is not cleared. -/
def resetState (s : Session) : Session :=
  { s with
    m_state := .zero
    m_srpUsername := []
    m_srpA := []
    m_sessionK := []
    m_enc := none
    m_dec := none }

/-- The two ciphers of the server for a session key: it encrypts with the server's keys
and decrypts with the client's. -/
def deriveCrypto (p : Platform) (sessionK : Bytes) :
    Except CryptoException (DatagramEncryptor × DatagramDecryptor) :=
  match HashKeyDerivator.create p sessionK shAes256Keylen shIvlen shSha1Outputlen with
  | .error e => throw (.dsrp e)
  | .ok keydrv => do
    let enc ← DatagramCipher.create p keydrv.mServerEncryptionKey keydrv.mServerIV
      keydrv.mServerMacKey
    let dec ← DatagramCipher.create p keydrv.mClientEncryptionKey keydrv.mClientIV
      keydrv.mClientMacKey
    return (enc, dec)

/-- `initCrypto` with the ciphers it leaves behind. A call that throws is followed by
`resetState`, so what it has allocated by then does not matter. -/
def initCrypto (p : Platform) (s : Session) :
    Except CryptoException (DatagramEncryptor × DatagramDecryptor) :=
  match s.m_enc, s.m_dec with
  | some _, none => throw (.dsrp ⟨"Session::initCrypto(): fatal"⟩)
  | none, some _ => throw (.dsrp ⟨"Session::initCrypto(): fatal"⟩)
  | some enc, some dec => return (enc, dec)
  | none, none => deriveCrypto p s.m_sessionK

/-- The size of the buffers for a decrypted request and an encrypted response. -/
def bufferSize : ℕ := getOverheadLen + shMaxMsglen

/-- `processEncrpytedDatagram` on the ciphers of the session. -/
def processEncrpytedDatagram (p : Platform) (env : Environment) (enc : DatagramEncryptor)
    (dec : DatagramDecryptor) (sequenceNumber : UInt64) (encrpytedMessage : Bytes) :
    EncryptedStep :=
  if encrpytedMessage.length = 0 then ⟨.returns (false, []), [], []⟩
  else
    match DatagramDecryptor.decryptAndVerifyMac p dec bufferSize encrpytedMessage
        sequenceNumber with
    | .fault => ⟨.fault, [], []⟩
    | .throws e => ⟨.throws e, [], []⟩
    | .returns applicationRequest =>
      match env.application sequenceNumber applicationRequest with
      | (false, _) => ⟨.returns (false, []), [applicationRequest], []⟩
      | (true, applicationResponse) =>
        if applicationResponse.length = 0 then
          ⟨.returns (false, []), [applicationRequest], []⟩
        else
          let encrypted := [(sequenceNumber, applicationResponse)]
          match DatagramEncryptor.encryptAndAuthenticate p enc bufferSize applicationResponse
              sequenceNumber with
          | .fault => ⟨.fault, [applicationRequest], encrypted⟩
          | .throws e => ⟨.throws e, [applicationRequest], encrypted⟩
          | .returns encrpytedResponse =>
            ⟨.returns (true, encrpytedResponse), [applicationRequest], encrypted⟩

/-- The case `SH_SRV_STATE_ZERO`. A request that cannot be parsed is not the end: the
call goes on with the empty username. -/
def processZero (srv : ShellServer) (env : Environment) (request : Bytes) (s : Session) : Step :=
  let s := s.resetState
  let (s, response) :=
    match enc_parse_A_message env.beyond request with
    | .ok (username, srpA) => ({ s with m_srpUsername := username, m_srpA := srpA }, [])
    | .error _ => (s, enc_construct_P_message_fail shErrorcodeParsingFailed)
  match getVerificator srv.math srv.lookup env.random true s.m_srpUsername s.m_srpA with
  | .error (.userNotFound _ _) =>
    ⟨true, enc_construct_P_message_fail shErrorcodeUserNotFound, s.resetState, [], []⟩
  | .error (.dsrp _) =>
    ⟨true, enc_construct_P_message_fail shErrorcodeSrpError, s.resetState, [], []⟩
  | .ok ver =>
    let s := { s with ver := ver }
    match enc_construct_P_message_success ver.salt ver.BB with
    | .error _ => ⟨false, response, s.resetState, [], []⟩
    | .ok response => ⟨true, response, { s with m_state := .alpha }, [], []⟩

/-- The case `SH_SRV_STATE_ALPHA`. -/
def processAlpha (request : Bytes) (s : Session) : Step :=
  match enc_parse_B_message request with
  | .error _ => ⟨true, enc_construct_Q_message_fail shErrorcodeParsingFailed, s.resetState, [], []⟩
  | .ok currentM1 =>
    match s.ver.authenticate currentM1 with
    | .error _ =>
      ⟨true, enc_construct_Q_message_fail shErrorcodeAuthenticationFailed, s.resetState, [], []⟩
    | .ok (currentM2, sessionK) =>
      let s := { s with m_sessionK := sessionK }
      match enc_construct_Q_message_success currentM2 with
      | .error _ => ⟨false, [], s.resetState, [], []⟩
      | .ok response => ⟨true, response, { s with m_state := .beta }, [], []⟩

/-- The case `SH_SRV_STATE_BETA`. A write behind a buffer leaves no step. -/
def processBeta (srv : ShellServer) (env : Environment) (sequenceNumber : UInt64)
    (request : Bytes) (s : Session) : Option Step :=
  match enc_parse_C_message request with
  | .error _ => some ⟨false, [], s.resetState, [], []⟩
  | .ok encrpytedMessage =>
    match s.initCrypto srv.platform with
    | .error _ => some ⟨false, [], s.resetState, [], []⟩
    | .ok (enc, dec) =>
      let s := { s with m_enc := some enc, m_dec := some dec }
      let inner := processEncrpytedDatagram srv.platform env enc dec sequenceNumber
        encrpytedMessage
      match inner.outcome with
      | .fault => none
      | .throws _ =>
        some ⟨false, [], s.resetState, inner.applicationRequests, inner.encrypted⟩
      | .returns (false, _) =>
        some ⟨false, [], s.resetState, inner.applicationRequests, inner.encrypted⟩
      | .returns (true, encryptedResponse) =>
        some ⟨true, enc_construct_R_message encryptedResponse 0, s, inner.applicationRequests,
          inner.encrypted⟩

/-- `Session::processDatagram` -/
def processDatagram (srv : ShellServer) (env : Environment) (sequenceNumber : UInt64)
    (request : Bytes) (s : Session) : Option Step :=
  match s.m_state with
  | .zero => some (processZero srv env request s)
  | .alpha => some (processAlpha request s)
  | .beta => processBeta srv env sequenceNumber request s
  | .fault => some ⟨true, [], s, [], []⟩

end Session

end San2.Shell
