import San2.Shell.CipherBuffers
import San2.Shell.NonceUse

/-!
# The exceptions that leave the client

During the login every call that throws on account of a response is inside a `try` block.
`getShellServerResponse` has none, and neither has its caller: whatever
`decryptAndVerifyMac` refuses ends the program. Which responses these are is a condition
on each call of `getShellServerResponse` that a run makes. Apart from that the loop over
the lines does not come back once `std::cin` has failed, which is a condition on what the
user types.
-/

namespace San2.Shell

open Utils Network DragonSRP

/-- Every step has finished with a return code: the run is over, or it waits for a line
that the user may still type. -/
def RunEnd.Returns : RunEnd → Prop
  | .returned _ => True
  | .waiting => True
  | .threw _ => False
  | .fault => False
  | .endless => False

namespace ClientSession

/-- What a call of `getShellServerResponse` is given. -/
structure ShellInput where
  tx : StopWaitTx
  encryptor : DatagramEncryptor
  decryptor : DatagramDecryptor
  connector : ℕ → Try
  shellRequest : Bytes

/-- The call of `getShellServerResponse` with the arguments of one input. -/
def ShellInput.call (p : Platform) (input : ShellInput) : ShellCall :=
  getShellServerResponse p input.tx input.encryptor input.decryptor input.connector
    input.shellRequest

/-- A response that reports an error or is no R message at all, or whose content fits into
the buffer and carries the digest of its ciphertext. -/
def Readable (p : Platform) (decryptor : DatagramDecryptor) (sequenceNumber : UInt64)
    (serverResponse : Bytes) : Prop :=
  ∀ encryptedResponse, enc_parse_R_message serverResponse = .ok (encryptedResponse, 0) →
    encryptedResponse.length ≤ 60024 ∧
      ∃ ciphertext : Bytes, 0 < ciphertext.length ∧
        encryptedResponse = ciphertext ++ decryptor.truncDigest p ciphertext sequenceNumber

/-- The request is too long to be tried, or it can be encrypted and the response to it, if
there is one, can be read. -/
def ShellInput.Meets (p : Platform) (input : ShellInput) : Prop :=
  shMaxMsglen < input.shellRequest.length ∨
    input.shellRequest.length ≠ 0 ∧ input.tx.m_expectedSeqNum ≠ 0xFFFFFFFFFFFFFFFF ∧
      ∀ serverResponse tx',
        input.tx.sendReliableMessage p.host input.connector = ((true, serverResponse), tx') →
        Readable p input.decryptor input.tx.m_expectedSeqNum serverResponse

/-- The request is too long, or nothing arrives for it but an error or what is no R
message at all. -/
def ShellInput.Refused (p : Platform) (input : ShellInput) : Prop :=
  shMaxMsglen < input.shellRequest.length ∨
    ∀ serverResponse tx' encryptedResponse,
      input.tx.sendReliableMessage p.host input.connector = ((true, serverResponse), tx') →
      enc_parse_R_message serverResponse ≠ .ok (encryptedResponse, 0)

/-- What fits and carries its digest is decrypted. -/
theorem decryptAndVerifyMac_returns_iff {p : Platform} {dec : DatagramDecryptor}
    {datagram : Bytes} {sequenceNumber : UInt64} (hseq : sequenceNumber ≠ 0xFFFFFFFFFFFFFFFF) :
    (∃ text, DatagramDecryptor.decryptAndVerifyMac p dec Session.bufferSize datagram
        sequenceNumber = .returns text) ↔
      datagram.length ≤ 60024 ∧ ∃ ciphertext : Bytes, 0 < ciphertext.length ∧
        datagram = ciphertext ++ dec.truncDigest p ciphertext sequenceNumber := by
  have htrunc : truncDigestSize = 12 := rfl
  have hpacket : aesMaxPacketOct = 65534 := rfl
  constructor
  · rintro ⟨text, h⟩
    obtain ⟨hlength, ciphertext, hpos, hdatagram, -⟩ := decryptAndVerifyMac_eq_returns_iff.mp h
    exact ⟨hlength, ciphertext, hpos, hdatagram⟩
  · rintro ⟨hlength, ciphertext, hpos, hdatagram⟩
    have hsum : datagram.length = ciphertext.length + truncDigestSize := by
      rw [hdatagram, List.length_append, DatagramCipher.length_truncDigest]
    obtain ⟨text, hdecrypt⟩ := (AesCounter.encrypt_ok_iff p.host p.cipher dec.aesCtr ciphertext
      sequenceNumber).mpr ⟨hpos, by omega, hseq⟩
    exact ⟨text, decryptAndVerifyMac_eq_returns_iff.mpr
      ⟨hlength, ciphertext, hpos, hdatagram, hdecrypt⟩⟩

/-- `readResponse` returns exactly when the response can be read, for every sequence number but
the last. -/
theorem readResponse_returns_iff {p : Platform} {decryptor : DatagramDecryptor}
    {sequenceNumber : UInt64} (hseq : sequenceNumber ≠ 0xFFFFFFFFFFFFFFFF)
    (serverResponse : Bytes) :
    (∃ returned, readResponse p decryptor sequenceNumber serverResponse = .returns returned) ↔
      Readable p decryptor sequenceNumber serverResponse := by
  unfold readResponse Readable
  cases hparse : enc_parse_R_message serverResponse with
  | error code => exact iff_of_true ⟨_, rfl⟩ (by simp)
  | ok fields =>
    obtain ⟨encryptedResponse, errorCode⟩ := fields
    dsimp only
    by_cases herror : errorCode = 0
    · rw [if_neg (not_not.mpr herror), herror]
      have hread := @decryptAndVerifyMac_returns_iff p decryptor encryptedResponse _ hseq
      constructor
      · rintro ⟨returned, h⟩ content hcontent
        cases hcontent
        apply hread.mp
        split at h
        · cases h
        · cases h
        · rename_i text hdecrypt
          exact ⟨text, hdecrypt⟩
      · intro h
        obtain ⟨text, hdecrypt⟩ := hread.mpr (h encryptedResponse rfl)
        rw [hdecrypt]
        exact ⟨_, rfl⟩
    · rw [if_pos herror]
      refine iff_of_true ⟨_, rfl⟩ ?_
      intro content hcontent
      cases hcontent
      exact absurd rfl herror

/-- A call returns exactly if its request and the response to it allow that. -/
theorem ShellInput.returns_iff (p : Platform) (input : ShellInput) :
    (∃ returned, (input.call p).outcome = .returns returned) ↔ input.Meets p := by
  unfold ShellInput.call ShellInput.Meets getShellServerResponse StopWaitTx.getNextSequenceNumber
  by_cases hlong : shMaxMsglen < input.shellRequest.length
  · rw [if_pos hlong]
    exact iff_of_true ⟨_, rfl⟩ (.inl hlong)
  rw [if_neg hlong, or_iff_right hlong]
  dsimp only
  constructor
  · rintro ⟨returned, h⟩
    split at h
    · cases h
    · cases h
    · rename_i encryptedRequest hencrypt
      obtain ⟨hpos, -, hseq, -⟩ := encryptAndAuthenticate_returns hencrypt
      refine ⟨Nat.pos_iff_ne_zero.mp hpos, hseq, ?_⟩
      intro serverResponse tx' hsend
      rw [hsend] at h
      exact (readResponse_returns_iff hseq serverResponse).mp ⟨returned, h⟩
  · rintro ⟨hne, hseq, hresponse⟩
    obtain ⟨datagram, -, hencrypt, -⟩ := protect_open p input.encryptor (Nat.pos_of_ne_zero hne)
      (Nat.le_of_not_lt hlong) hseq
    rw [hencrypt]
    rcases hsend : input.tx.sendReliableMessage p.host input.connector with
      ⟨⟨ok, serverResponse⟩, tx'⟩
    cases ok with
    | false => exact ⟨_, rfl⟩
    | true => exact (readResponse_returns_iff hseq serverResponse).mpr (hresponse _ _ hsend)

/-- The response decides the return code: zero stands for content that could be read. -/
theorem readResponse_rval {p : Platform} {decryptor : DatagramDecryptor}
    {sequenceNumber : UInt64} {serverResponse : Bytes} {returned : ℤ × Bytes}
    (h : readResponse p decryptor sequenceNumber serverResponse = .returns returned) :
    returned.1 = 0 ↔
      ∃ encryptedResponse, enc_parse_R_message serverResponse = .ok (encryptedResponse, 0) := by
  unfold readResponse at h
  cases hparse : enc_parse_R_message serverResponse with
  | error code =>
    rw [hparse] at h
    cases h
    exact iff_of_false (by decide) (by simp)
  | ok fields =>
    obtain ⟨encryptedResponse, errorCode⟩ := fields
    rw [hparse] at h
    dsimp only at h
    by_cases herror : errorCode = 0
    · rw [if_neg (not_not.mpr herror)] at h
      refine iff_of_true ?_ ⟨encryptedResponse, by rw [herror]⟩
      split at h
      · cases h
      · cases h
      · cases h
        rfl
    · rw [if_pos herror] at h
      cases h
      refine iff_of_false (by decide) ?_
      rintro ⟨content, hcontent⟩
      cases hcontent
      exact herror rfl

/-- A call that returns gives a code other than zero exactly if its request is refused. -/
theorem ShellInput.refused_iff {p : Platform} {input : ShellInput} {returned : ℤ × Bytes}
    (h : (input.call p).outcome = .returns returned) : returned.1 ≠ 0 ↔ input.Refused p := by
  unfold ShellInput.call getShellServerResponse StopWaitTx.getNextSequenceNumber at h
  unfold ShellInput.Refused
  by_cases hlong : shMaxMsglen < input.shellRequest.length
  · rw [if_pos hlong] at h
    cases h
    exact iff_of_true (by decide) (.inl hlong)
  rw [if_neg hlong] at h
  rw [or_iff_right hlong]
  dsimp only at h
  split at h
  · cases h
  · cases h
  rcases hsend : input.tx.sendReliableMessage p.host input.connector with
    ⟨⟨ok, serverResponse⟩, tx'⟩
  rw [hsend] at h
  cases ok with
  | false =>
    cases h
    refine iff_of_true (by decide) ?_
    intro serverResponse' tx'' encryptedResponse hsend'
    cases hsend'
  | true =>
    rw [Ne, readResponse_rval h]
    constructor
    · rintro hnone serverResponse' tx'' encryptedResponse hsend' hparse
      cases hsend'
      exact hnone ⟨encryptedResponse, hparse⟩
    · rintro hrefused ⟨encryptedResponse, hparse⟩
      exact hrefused serverResponse tx' encryptedResponse rfl hparse

/-- The calls of `getShellServerResponse` that the loop makes. -/
def loopInputs (p : Platform) (enc : DatagramEncryptor) (dec : DatagramDecryptor) :
    StopWaitTx → (ℕ → ℕ → Try) → List Bytes → List ShellInput
  | _, _, [] => []
  | tx, network, line :: lines =>
    if line.length = 0 then loopInputs p enc dec tx network lines
    else if line = string2bytes "exit" then []
    else
      let input : ShellInput := ⟨tx, enc, dec, network 0, line⟩
      input ::
        match (input.call p).outcome with
        | .returns (rval, _) =>
          if rval ≠ 0 then []
          else loopInputs p enc dec (input.call p).tx (fun k => network (k + 1)) lines
        | _ => []

/-- The calls of `getShellServerResponse` behind the login. -/
def shellInputs (p : Platform) (K : Bytes) (tx : StopWaitTx) (network : ℕ → ℕ → Try)
    (lines : List Bytes) : List ShellInput :=
  match deriveCrypto p K with
  | .error _ => []
  | .ok (enc, dec) =>
    let input : ShellInput := ⟨tx, enc, dec, network 0, string2bytes "hostname"⟩
    input ::
      match (input.call p).outcome with
      | .returns _ => loopInputs p enc dec (input.call p).tx (fun k => network (k + 1)) lines
      | _ => []

/-- The calls of `getShellServerResponse` in a run. -/
def runInputs (p : Platform) (random : Except DsrpException Bytes) (tx : StopWaitTx)
    (network : ℕ → ℕ → Try) (username password : Bytes) (input : TerminalInput) :
    List ShellInput :=
  match login p (shellMath p) random tx network username password with
  | .error _ => []
  | .ok (K, tx) => shellInputs p K tx (fun k => network (k + 2)) (terminal input.lines)

/-- Among the texts from the terminal and the requests made of them is what ends the loop. -/
def LoopEnds (p : Platform) (lines : List Bytes) (requests : List ShellInput) : Prop :=
  string2bytes "exit" ∈ lines ∨ ∃ call ∈ requests, call.Refused p

/-- If the terminal fails, something ends the loop before that. The first call asks for
the host name and is made before anything is read. -/
def Leaves (p : Platform) (input : TerminalInput) : List ShellInput → Prop
  | [] => True
  | _ :: requests => terminalFails input = true → LoopEnds p (terminal input.lines) requests

/-- A call with what the run does after it. If the call throws, so does the run. -/
theorem call_returns_iff {p : Platform} {input : ShellInput} {ending : RunEnd}
    {rest : List ShellInput} {ends : Prop}
    (hfault : (input.call p).outcome = .fault → ending = .fault)
    (hthrows : ∀ e, (input.call p).outcome = .throws e → ending = .threw e)
    (hreturns : ∀ returned, (input.call p).outcome = .returns returned →
      (ending.Returns ↔ (∀ later ∈ rest, later.Meets p) ∧ ends)) :
    ending.Returns ↔ (∀ later ∈ input :: rest, later.Meets p) ∧ ends := by
  rw [List.forall_mem_cons, ← input.returns_iff p]
  cases houtcome : (input.call p).outcome with
  | fault =>
    rw [hfault houtcome]
    exact iff_of_false id (by simp)
  | throws e =>
    rw [hthrows e houtcome]
    exact iff_of_false id (by simp)
  | returns returned =>
    have hcall : ∃ returned', Outcome.returns returned = .returns returned' := ⟨returned, rfl⟩
    rw [and_iff_right hcall]
    exact hreturns returned houtcome

/-- A line that ends nothing does not count. -/
theorem loopEnds_cons_line {p : Platform} {line : Bytes} {lines : List Bytes}
    {requests : List ShellInput} (hexit : line ≠ string2bytes "exit") :
    LoopEnds p (line :: lines) requests ↔ LoopEnds p lines requests := by
  unfold LoopEnds
  rw [List.mem_cons, or_iff_right (Ne.symm hexit)]

/-- Neither does a request that is answered. -/
theorem loopEnds_cons_request {p : Platform} {input : ShellInput} {lines : List Bytes}
    {requests : List ShellInput} (hanswered : ¬ input.Refused p) :
    LoopEnds p lines (input :: requests) ↔ LoopEnds p lines requests := by
  simp only [LoopEnds, List.mem_cons, exists_eq_or_imp, hanswered, false_or]

/-- The loop over the lines of the user. -/
theorem shellLoop_returns_iff (p : Platform) (enc : DatagramEncryptor) (dec : DatagramDecryptor)
    (failed : Bool) (tx : StopWaitTx) (network : ℕ → ℕ → Try) (lines : List Bytes) :
    (shellLoop p enc dec failed tx network lines).ending.Returns ↔
      (∀ input ∈ loopInputs p enc dec tx network lines, input.Meets p) ∧
        (failed = true → LoopEnds p lines (loopInputs p enc dec tx network lines)) := by
  induction lines generalizing tx network with
  | nil =>
    unfold shellLoop loopInputs LoopEnds
    cases failed with
    | false => exact iff_of_true trivial (by simp)
    | true => exact iff_of_false id (by simp)
  | cons line lines ih =>
    unfold shellLoop loopInputs
    by_cases hempty : line.length = 0
    · have hexit : line ≠ string2bytes "exit" := by
        rintro rfl
        exact absurd hempty (by decide)
      rw [if_pos hempty, if_pos hempty, loopEnds_cons_line hexit]
      exact ih tx network
    · by_cases hexit : line = string2bytes "exit"
      · rw [if_neg hempty, if_neg hempty, if_pos hexit, if_pos hexit]
        refine iff_of_true trivial ⟨by simp, fun _ => .inl ?_⟩
        rw [hexit]
        exact List.mem_cons_self
      · rw [if_neg hempty, if_neg hempty, if_neg hexit, if_neg hexit, loopEnds_cons_line hexit]
        unfold ShellInput.call
        apply call_returns_iff
        · intro houtcome
          unfold ShellInput.call at houtcome
          dsimp only at houtcome ⊢
          rw [houtcome]
        · intro e houtcome
          unfold ShellInput.call at houtcome
          dsimp only at houtcome ⊢
          rw [houtcome]
        · rintro ⟨rval, shellResponse⟩ houtcome
          have hrefused := ShellInput.refused_iff houtcome
          unfold ShellInput.call at houtcome
          dsimp only at houtcome hrefused ⊢
          rw [houtcome]
          dsimp only
          by_cases hrval : rval = 0
          · rw [if_neg (not_not.mpr hrval), if_neg (not_not.mpr hrval),
              loopEnds_cons_request fun h => hrefused.mpr h hrval]
            exact ih _ _
          · rw [if_pos hrval, if_pos hrval]
            refine iff_of_true trivial ⟨by simp, fun _ => .inr ?_⟩
            exact ⟨_, List.mem_cons_self, hrefused.mp hrval⟩

/-- Everything behind the login. -/
theorem shell_returns_iff (p : Platform) {K : Bytes} (hK : 16 ≤ K.length) (tx : StopWaitTx)
    (network : ℕ → ℕ → Try) (input : TerminalInput) :
    (shell p K tx network input).ending.Returns ↔
      (∀ call ∈ shellInputs p K tx network (terminal input.lines), call.Meets p) ∧
        Leaves p input (shellInputs p K tx network (terminal input.lines)) := by
  obtain ⟨enc, dec, hcrypto, -⟩ := deriveCrypto_opposite p hK
  unfold shell shellInputs
  rw [hcrypto]
  unfold ShellInput.call Leaves
  apply call_returns_iff
  · intro houtcome
    unfold ShellInput.call at houtcome
    dsimp only at houtcome ⊢
    rw [houtcome]
  · intro e houtcome
    unfold ShellInput.call at houtcome
    dsimp only at houtcome ⊢
    rw [houtcome]
  · intro returned houtcome
    unfold ShellInput.call at houtcome
    dsimp only at houtcome ⊢
    rw [houtcome]
    exact shellLoop_returns_iff p enc dec _ _ _ _

/-- The first step of a login throws if there is no random number, or if the hash of the
group is zero. -/
theorem getAuthenticator_returns_iff (p : Platform) (random : Except DsrpException Bytes)
    (username password : Bytes) :
    (∃ sca, getAuthenticator (shellMath p) random username password = .ok sca) ↔
      ∃ a, random = .ok a ∧ a ≠ [] ∧ (shellMath p).k ≠ 0 := by
  have hN : (shellMath p).N ≠ 0 := by
    have hgroup : OsslConversion.bytes2bignum Ng.predefined1024.N ≠ 0 := by decide +kernel
    exact hgroup
  have hg : (shellMath p).g ≠ 0 := by
    have hgroup : OsslConversion.bytes2bignum Ng.predefined1024.g ≠ 0 := by decide
    exact hgroup
  unfold getAuthenticator OsslMathImpl.calculateA
  constructor
  · rintro ⟨sca, h⟩
    obtain ⟨a, ha, h⟩ := bind_eq_ok.mp h
    obtain ⟨A, hA, -⟩ := bind_eq_ok.mp h
    obtain ⟨_, hparameter, hA⟩ := bind_eq_ok.mp hA
    obtain ⟨_, hNg, -⟩ := bind_eq_ok.mp hA
    exact ⟨a, ha, checkParameter_eq_ok.mp hparameter,
      (OsslMathImpl.checkNg_eq_ok.mp hNg).2.2⟩
  · rintro ⟨a, rfl, hne, hk⟩
    have hparameter : checkParameter "calculateA" "aa" a = .ok () := checkParameter_eq_ok.mpr hne
    have hNg : (shellMath p).checkNg = .ok () := OsslMathImpl.checkNg_eq_ok.mpr ⟨hN, hg, hk⟩
    exact ⟨_, bind_eq_ok.mpr ⟨a, rfl, bind_eq_ok.mpr ⟨_, bind_eq_ok.mpr ⟨_, hparameter,
      bind_eq_ok.mpr ⟨_, hNg, rfl⟩⟩, rfl⟩⟩⟩

/-- Whatever the responses to a login are, it ends with a key or with a return code. -/
theorem login_error_returns_iff {p : Platform} {math : OsslMathImpl}
    {random : Except DsrpException Bytes} {tx : StopWaitTx} {network : ℕ → ℕ → Try}
    {username password : Bytes} {ending : RunEnd}
    (h : login p math random tx network username password = .error ending) :
    ending.Returns ↔ ∃ sca, getAuthenticator math random username password = .ok sca := by
  unfold login at h
  cases hsca : getAuthenticator math random username password with
  | error e =>
    rw [hsca] at h
    cases h
    exact iff_of_false id (by simp)
  | ok sca =>
    refine iff_of_true ?_ ⟨sca, rfl⟩
    rw [hsca] at h
    dsimp only at h
    split at h
    · cases h
      trivial
    split at h
    · cases h
      trivial
    split at h
    · cases h
      trivial
    split_ifs at h
    · cases h
      trivial
    · cases h
      trivial
    split at h
    · cases h
      trivial
    split at h
    · cases h
      trivial
    split at h
    · cases h
      trivial
    split at h
    · cases h
      trivial
    split_ifs at h
    · cases h
      trivial
    split at h
    · cases h
      trivial
    · cases h

/-- A call of `getShellServerResponse` finishes with a return code exactly if it meets its
condition. A run does exactly if its login can begin, all its calls meet theirs, and what
the user types leaves the loop before the terminal fails. -/
theorem client_returns_iff (p : Platform) (input : ShellInput)
    (random : Except DsrpException Bytes) (tx : StopWaitTx) (network : ℕ → ℕ → Try)
    (username password : Bytes) (user : TerminalInput) :
    ((∃ returned, (getShellServerResponse p input.tx input.encryptor input.decryptor
        input.connector input.shellRequest).outcome = .returns returned) ↔ input.Meets p) ∧
    ((run p (shellMath p) random tx network username password user).ending.Returns ↔
      (∃ a, random = .ok a ∧ a ≠ [] ∧ (shellMath p).k ≠ 0) ∧
        (∀ call ∈ runInputs p random tx network username password user, call.Meets p) ∧
          Leaves p user (runInputs p random tx network username password user)) := by
  refine ⟨input.returns_iff p, ?_⟩
  rw [← getAuthenticator_returns_iff p random username password]
  unfold run runInputs
  cases hlogin : login p (shellMath p) random tx network username password with
  | error ending =>
    dsimp only
    rw [login_error_returns_iff hlogin, and_iff_left ⟨by simp, trivial⟩]
  | ok accepted =>
    obtain ⟨K, tx'⟩ := accepted
    have hK : K.length = 2 * 20 := (login_eq_ok hlogin).1
    obtain ⟨sca, -, -, -, -, -, -, -, -, -, -, hsca, -⟩ := login_eq_ok_iff.mp hlogin
    rw [and_iff_right ⟨sca, hsca⟩]
    exact shell_returns_iff p (by omega) tx' _ user

/-- The network answers the login, and the request for the host name with an R message
whose content is one byte. -/
def truncatedNetwork (k i : ℕ) : Try :=
  if k = 2 then ⟨true, some (sampleCapsule 3 (enc_construct_R_message [1] 0))⟩
  else sampleNetwork k i

/-- A run in which the user would leave at once. -/
def truncatedRun : ClientRun :=
  run Session.samplePlatform (shellMath Session.samplePlatform) sampleRandom
    { sampleTx with m_expectedSeqNum := 1 } truncatedNetwork (string2bytes "u")
    (string2bytes "p") ⟨[], false⟩

/-- A login to a server that answers with a datagram too short to decrypt. -/
theorem truncatedLogin : login Session.samplePlatform (shellMath Session.samplePlatform)
    sampleRandom { sampleTx with m_expectedSeqNum := 1 } truncatedNetwork (string2bytes "u")
    (string2bytes "p") = .ok (List.replicate 38 0 ++ [5, 3], sampleTx) := by
  decide +kernel

/-- The client ends with the exception of the decryptor, which nothing on the way catches. -/
theorem truncatedRun_ending :
    truncatedRun.ending = .threw (.dsrp ⟨"Malformed packet decryption attempt"⟩) := by
  have hshell : (shell Session.samplePlatform (List.replicate 38 0 ++ [5, 3]) sampleTx
      (fun k => truncatedNetwork (k + 2)) ⟨[], false⟩).ending =
        .threw (.dsrp ⟨"Malformed packet decryption attempt"⟩) := by
    decide +kernel
  unfold truncatedRun run
  rw [truncatedLogin]
  exact hshell

/-- The exception that this byte raises leaves the client. -/
theorem client_returns_truncatedResponse :
    (∃ sca, getAuthenticator (shellMath Session.samplePlatform) sampleRandom (string2bytes "u")
      (string2bytes "p") = .ok sca) ∧ ¬ truncatedRun.ending.Returns := by
  obtain ⟨sca, -, -, -, -, -, -, -, -, -, -, hsca, -⟩ := login_eq_ok_iff.mp truncatedLogin
  refine ⟨⟨sca, hsca⟩, ?_⟩
  rw [truncatedRun_ending]
  exact id

end ClientSession

end San2.Shell
