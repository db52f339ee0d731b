import San2.Shell.Session
import San2.Shell.StopWait

/-!
# The shell client

`ClientSession::run` logs in with two reliable messages and derives its ciphers from
the session key. It then asks for the host name and passes every line from the
terminal to the server, until the user types `exit` or a request fails. A terminal that
can no longer be read leaves it in its loop for ever.

What the network does is given for every call of `sendReliableMessage`. Next to its
result a call reports the message it sends and the plaintexts it has passed to
`encryptAndAuthenticate`.
-/

namespace San2.Shell

open Utils Network DragonSRP

/-- `SH_TERMINAL_MAXLINLEN` -/
abbrev shTerminalMaxLinLen : ℕ := 512

/-- What one call of `getShellServerResponse` does. A call that returns gives its
code and `shellResponse`. -/
structure ShellCall where
  outcome : Outcome (ℤ × Bytes)
  tx : StopWaitTx
  /-- The argument of `sendReliableMessage`. -/
  serverRequest : Option Bytes
  encrypted : List (UInt64 × Bytes)
  deriving DecidableEq

/-- How a run ends. -/
inductive RunEnd
  | returned (rval : ℤ)
  /-- An exception that nobody catches. -/
  | threw (e : CryptoException)
  | fault
  /-- The user has not typed the next line yet. -/
  | waiting
  /-- `std::cin` has failed, so every further line is empty and the loop goes on for ever. -/
  | endless
  deriving DecidableEq, Repr

/-- What the user has typed: the lines, each without its line feed, and whether the input
ends behind them. A last line without a line feed counts once the input has ended. -/
structure TerminalInput where
  lines : List Bytes
  endOfFile : Bool

/-- A run of the client: the lines printed, and how it ended. -/
structure ClientRun where
  ending : RunEnd
  encrypted : List (UInt64 × Bytes)
  deriving DecidableEq

namespace ClientSession

/-- The ciphers of the client: it encrypts with the client's keys and decrypts with the
server's. -/
def deriveCrypto (p : Platform) (K : Bytes) :
    Except CryptoException (DatagramEncryptor × DatagramDecryptor) :=
  match HashKeyDerivator.create p K shAes256Keylen shIvlen shSha1Outputlen with
  | .error e => throw (.dsrp e)
  | .ok keydrv => do
    let enc ← DatagramCipher.create p keydrv.mClientEncryptionKey keydrv.mClientIV
      keydrv.mClientMacKey
    let dec ← DatagramCipher.create p keydrv.mServerEncryptionKey keydrv.mServerIV
      keydrv.mServerMacKey
    return (enc, dec)

/-- `getShellServerResponse` behind `sendReliableMessage`. -/
def readResponse (p : Platform) (decryptor : DatagramDecryptor) (sequenceNumber : UInt64)
    (serverResponse : Bytes) : Outcome (ℤ × Bytes) :=
  match enc_parse_R_message serverResponse with
  | .error _ => .returns (-4, [])
  | .ok (encryptedResponse, errorCode) =>
    if errorCode ≠ 0 then .returns (-5, [])
    else
      match DatagramDecryptor.decryptAndVerifyMac p decryptor Session.bufferSize
          encryptedResponse sequenceNumber with
      | .fault => .fault
      | .throws e => .throws e
      | .returns shellResponse => .returns (0, shellResponse)

/-- `ClientSession::getShellServerResponse` -/
def getShellServerResponse (p : Platform) (tx : StopWaitTx) (encryptor : DatagramEncryptor)
    (decryptor : DatagramDecryptor) (connector : ℕ → Try) (shellRequest : Bytes) : ShellCall :=
  let sequenceNumber := tx.getNextSequenceNumber
  if shMaxMsglen < shellRequest.length then ⟨.returns (-1, []), tx, none, []⟩
  else
    let encrypted := [(sequenceNumber, shellRequest)]
    match DatagramEncryptor.encryptAndAuthenticate p encryptor Session.bufferSize shellRequest
        sequenceNumber with
    | .fault => ⟨.fault, tx, none, encrypted⟩
    | .throws e => ⟨.throws e, tx, none, encrypted⟩
    | .returns encryptedRequest =>
      let serverRequest := enc_construct_C_message encryptedRequest
      match tx.sendReliableMessage p.host connector with
      | ((false, _), tx) => ⟨.returns (-3, []), tx, some serverRequest, encrypted⟩
      | ((true, serverResponse), tx) =>
        ⟨readResponse p decryptor sequenceNumber serverResponse, tx, some serverRequest,
          encrypted⟩

/-- The part of `run` that ends with the session key. The network's turns are numbered
by the calls of `sendReliableMessage`. -/
def login (p : Platform) (math : OsslMathImpl) (random : Except DsrpException Bytes)
    (tx : StopWaitTx) (network : ℕ → ℕ → Try) (username password : Bytes) :
    Except RunEnd (Bytes × StopWaitTx) :=
  match getAuthenticator math random username password with
  | .error e => throw (.threw (.dsrp e))
  | .ok sca =>
    match enc_construct_A_message username sca.A with
    | .error _ => throw (.returned (-1))
    | .ok _ =>
      match tx.sendReliableMessage p.host (network 0) with
      | ((false, _), _) => throw (.returned (-2))
      | ((true, response), tx) =>
        match enc_parse_P_message response with
        | .error _ => throw (.returned (-3))
        | .ok (errorCode, srpSalt, srpB) =>
          if errorCode = shErrorcodeUserNotFound then throw (.returned (-9))
          else if errorCode ≠ 0 then throw (.returned (-4))
          else
            match getM1 math true srpSalt srpB sca with
            | .error _ => throw (.returned (-5))
            | .ok (srpM1, sca) =>
              match enc_construct_B_message srpM1 with
              | .error _ => throw (.returned (-6))
              | .ok _ =>
                match tx.sendReliableMessage p.host (network 1) with
                | ((false, _), _) => throw (.returned (-7))
                | ((true, response), tx) =>
                  match enc_parse_Q_message response with
                  | .error _ => throw (.returned (-8))
                  | .ok (errorCode, srpM2) =>
                    if errorCode ≠ 0 then throw (.returned (-9))
                    else
                      match sca.getSessionKey srpM2 with
                      | .error _ => throw (.returned (-10))
                      | .ok K => return (K, tx)

/-- The lines that `getline` leaves in its buffer, each up to its first NUL. A line that
does not fit is cut and makes every later read fail. -/
def terminal : List Bytes → List Bytes
  | [] => []
  | line :: lines =>
    if line.length < shTerminalMaxLinLen then line.takeWhile (· ≠ 0) :: terminal lines
    else [(line.take (shTerminalMaxLinLen - 1)).takeWhile (· ≠ 0)]

/-- Whether `std::cin` is in a failed state once the texts of `terminal` have been read. -/
def terminalFails (input : TerminalInput) : Bool :=
  input.endOfFile || input.lines.any fun line => shTerminalMaxLinLen ≤ line.length

/-- The loop of `run` over the lines that are left. A failed `std::cin` leaves an empty
line, at which the loop continues. -/
def shellLoop (p : Platform) (enc : DatagramEncryptor) (dec : DatagramDecryptor)
    (failed : Bool) : StopWaitTx → (ℕ → ℕ → Try) → List Bytes → ClientRun
  | _, _, [] => ⟨if failed then .endless else .waiting, []⟩
  | tx, network, line :: lines =>
    if line.length = 0 then shellLoop p enc dec failed tx network lines
    else if line = string2bytes "exit" then ⟨.returned 0, []⟩
    else
      let call := getShellServerResponse p tx enc dec (network 0) line
      match call.outcome with
      | .fault => ⟨.fault, call.encrypted⟩
      | .throws e => ⟨.threw e, call.encrypted⟩
      | .returns (rval, _) =>
        if rval ≠ 0 then ⟨.returned 0, call.encrypted⟩
        else
          let rest := shellLoop p enc dec failed call.tx (fun k => network (k + 1)) lines
          ⟨rest.ending, call.encrypted ++ rest.encrypted⟩

/-- The part of `run` behind the login. The result of the first request is not looked at. -/
def shell (p : Platform) (K : Bytes) (tx : StopWaitTx) (network : ℕ → ℕ → Try)
    (input : TerminalInput) : ClientRun :=
  match deriveCrypto p K with
  | .error e => ⟨.threw e, []⟩
  | .ok (enc, dec) =>
    let call := getShellServerResponse p tx enc dec (network 0) (string2bytes "hostname")
    match call.outcome with
    | .fault => ⟨.fault, call.encrypted⟩
    | .throws e => ⟨.threw e, call.encrypted⟩
    | .returns _ =>
      let rest := shellLoop p enc dec (terminalFails input) call.tx
        (fun k => network (k + 1)) (terminal input.lines)
      ⟨rest.ending, call.encrypted ++ rest.encrypted⟩

/-- `ClientSession::run` -/
def run (p : Platform) (math : OsslMathImpl) (random : Except DsrpException Bytes)
    (tx : StopWaitTx) (network : ℕ → ℕ → Try) (username password : Bytes)
    (input : TerminalInput) : ClientRun :=
  match login p math random tx network username password with
  | .error ending => ⟨ending, []⟩
  | .ok (K, tx) => shell p K tx (fun k => network (k + 2)) input

/-- What a login that ends with a session key has been through. -/
theorem login_eq_ok_iff {p : Platform} {math : OsslMathImpl} {random : Except DsrpException Bytes}
    {tx tx' : StopWaitTx} {network : ℕ → ℕ → Try} {username password K : Bytes} :
    login p math random tx network username password = .ok (K, tx') ↔
      ∃ sca request response tx₁ srpSalt srpB srpM1 sca' request' response' srpM2,
        getAuthenticator math random username password = .ok sca ∧
        enc_construct_A_message username sca.A = .ok request ∧
        tx.sendReliableMessage p.host (network 0) = ((true, response), tx₁) ∧
        enc_parse_P_message response = .ok (0, srpSalt, srpB) ∧
        getM1 math true srpSalt srpB sca = .ok (srpM1, sca') ∧
        enc_construct_B_message srpM1 = .ok request' ∧
        tx₁.sendReliableMessage p.host (network 1) = ((true, response'), tx') ∧
        enc_parse_Q_message response' = .ok (0, srpM2) ∧
        sca'.getSessionKey srpM2 = .ok K := by
  constructor
  · intro h
    unfold login at h
    cases hsca : getAuthenticator math random username password with
    | error e => simp [hsca] at h
    | ok sca =>
      simp only [hsca] at h
      split at h
      · simp at h
      rename_i request hA
      split at h
      · simp at h
      rename_i response tx₁ hsend
      split at h
      · simp at h
      rename_i errorCode srpSalt srpB hP
      split_ifs at h with hfound herror
      split at h
      · simp at h
      rename_i srpM1 sca' hM1
      split at h
      · simp at h
      rename_i request' hB
      split at h
      · simp at h
      rename_i response' tx₂ hsend'
      split at h
      · simp at h
      rename_i errorCode' srpM2 hQ
      split_ifs at h with herror'
      split at h
      · simp at h
      rename_i sessionK hsessionK
      cases pure_eq_ok.mp h
      rw [not_not.mp herror] at hP
      rw [not_not.mp herror'] at hQ
      exact ⟨sca, request, response, tx₁, srpSalt, srpB, srpM1, sca', request', response', srpM2,
        rfl, hA, hsend, hP, hM1, hB, hsend', hQ, hsessionK⟩
  · rintro ⟨sca, request, response, tx₁, srpSalt, srpB, srpM1, sca', request', response', srpM2,
      hsca, hA, hsend, hP, hM1, hB, hsend', hQ, hsessionK⟩
    have hcode : (0 : UInt8) ≠ shErrorcodeUserNotFound := by decide
    simp only [login, hsca, hA, hsend, hP, hM1, hB, hsend', hQ, hsessionK, if_neg hcode,
      ne_eq, not_true_eq_false, if_false]
    rfl

end ClientSession

end San2.Shell
