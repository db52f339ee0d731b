import San2.Shell.ServerEnd
import San2.Shell.ShellExchange
import San2.Library.NonceLog

/-!
# The use of nonces

The nonce of a datagram is its sequence number, which belongs to the reliable
messages below: the server's advances with every response and the client's with every
answered request. The server never encrypts twice under one number. The client does
when the request for the host name stays unanswered, because `run` goes on to the
first line of the user with the number it has already used.
-/

namespace San2.Shell

open Utils Network DragonSRP NonceLog

namespace ServerEnd

/-- What has been encrypted under the key of a session in BETA has a number below the
one expected next. -/
structure Inv (s : ServerEnd) : Prop where
  fresh : Fresh s.encrypted
  below : s.session.m_state = .beta →
    Below UInt64.toNat s.rx.m_expectedSeqNum.toNat s.encrypted

/-- A new server end has encrypted nothing. -/
theorem inv_create (serverAddress : SanAddress) (serverPort : UInt16)
    (clientAddress : SanAddress) (clientPort : UInt16) :
    (create serverAddress serverPort clientAddress clientPort).Inv where
  fresh := fresh_nil
  below h := by cases h

/-- A request with the expected number is processed. -/
theorem Inv.after {srv : ShellServer} {s : ServerEnd} (h : s.Inv) {a : Arrival}
    {request : Bytes} {st : Step}
    (hprocess : s.session.processDatagram srv a.env s.rx.m_expectedSeqNum request = some st) :
    (s.after srv a st).Inv := by
  have hexit := Session.process_exit (d := ⟨a.env, s.rx.m_expectedSeqNum, request⟩) hprocess
  refine ⟨?_, fun hbeta => ?_⟩
  · rw [after_encrypted, logAfter]
    cases hexit with
    | stuck hstate => simp [hstate]
    | reset result response ver requests encrypted _ hencrypted =>
      obtain rfl | ⟨hbeta, plaintext, rfl⟩ := hencrypted
      · rw [List.append_nil]
        split
        · exact h.fresh
        · exact fresh_nil
      · rw [if_pos hbeta]
        exact h.fresh.concat (h.below hbeta) plaintext
    | offered username srpA ver response hstate _ _ _ => simp [hstate]
    | authenticated currentM1 currentM2 sessionK response hstate _ _ _ => simp [hstate]
    | answered enc dec request response encryptedResponse hrequest _ _ _ =>
      rw [if_pos hrequest.1]
      exact h.fresh.concat (h.below hrequest.1) response
  · rw [after_session] at hbeta
    rw [after_encrypted, logAfter]
    cases hexit with
    | stuck hstate =>
      rw [hstate] at hbeta
      cases hbeta
    | reset result response ver requests encrypted _ _ => cases hbeta
    | offered username srpA ver response hstate _ _ _ => cases hbeta
    | authenticated currentM1 currentM2 sessionK response hstate _ _ _ =>
      rw [hstate, if_neg (by decide)]
      intro e he
      cases he
    | answered enc dec request response encryptedResponse hrequest _ _ hencrypt =>
      -- the response is the only one with the number that is now behind the receiver
      obtain ⟨-, -, hseq, -⟩ := encryptAndAuthenticate_returns hencrypt
      rw [if_pos hrequest.1, after_expectedSeqNum _ _ _ _ rfl, toNat_succ hseq]
      exact (h.below hrequest.1).concat (Nat.lt_succ_self _) response

/-- **Step lemma**: a capsule at the server keeps every number below the next expected one. -/
theorem Inv.incommingCapsule {srv : ShellServer} {s s' : ServerEnd} (h : s.Inv) {a : Arrival}
    {ok : Bool} (hcapsule : s.incommingCapsule srv a = some (ok, s')) : s'.Inv := by
  obtain rfl | ⟨request, st, hprocess, -, rfl⟩ := incommingCapsule_eq_some hcapsule
  · exact h
  · exact h.after hprocess

/-- **Step lemma**: so does any arrival. -/
theorem Inv.receive {srv : ShellServer} {s s' : ServerEnd} (h : s.Inv) {a : Arrival}
    (hreceive : s.receive srv a = some s') : s'.Inv := by
  obtain ⟨⟨ok, s₁⟩, hcapsule, rfl⟩ := Option.map_eq_some_iff.mp hreceive
  exact h.incommingCapsule hcapsule

/-- Whatever capsules arrive, the server uses every nonce of a key for one message. -/
theorem fresh_of_run {srv : ShellServer} {serverAddress clientAddress : SanAddress}
    {serverPort clientPort : UInt16} {arrivals : List Arrival} {s : ServerEnd}
    (hrun : Execution.run (receive srv)
      (create serverAddress serverPort clientAddress clientPort) arrivals = some s) :
    Fresh s.encrypted := by
  have hall : ∀ a ∈ arrivals, (fun _ => True) a := fun _ _ => trivial
  exact (Execution.run_invariant (fun h _ hreceive => Inv.receive h hreceive) hall
    (inv_create serverAddress serverPort clientAddress clientPort) hrun).fresh

end ServerEnd

namespace ClientSession

/-- The ends of a call of `getShellServerResponse`. -/
inductive CallExit (p : Platform) (tx : StopWaitTx) (dec : DatagramDecryptor)
    (connector : ℕ → Try) (request : Bytes) : ShellCall → Prop
  | tooLong (hlength : shMaxMsglen < request.length) :
      CallExit p tx dec connector request ⟨.returns (-1, []), tx, none, []⟩
  | refused (outcome : Outcome (ℤ × Bytes)) (houtcome : ∀ returned, outcome ≠ .returns returned)
      (hrefused : request.length = 0 ∨ tx.m_expectedSeqNum = 0xFFFFFFFFFFFFFFFF) :
      CallExit p tx dec connector request ⟨outcome, tx, none, [(tx.m_expectedSeqNum, request)]⟩
  | unanswered (message : Bytes)
      (hanswered : ¬ tx.Answered p.host tx.m_repetitions connector) :
      CallExit p tx dec connector request
        ⟨.returns (-3, []), tx, some message, [(tx.m_expectedSeqNum, request)]⟩
  | answered (message response : Bytes)
      (hanswered : tx.Answered p.host tx.m_repetitions connector)
      (hseq : tx.m_expectedSeqNum ≠ 0xFFFFFFFFFFFFFFFF) :
      CallExit p tx dec connector request
        ⟨readResponse p dec tx.m_expectedSeqNum response,
          { tx with m_expectedSeqNum := tx.m_expectedSeqNum + 1 }, some message,
          [(tx.m_expectedSeqNum, request)]⟩

/-- Every way out of `getShellServerResponse`, with the number its request was encrypted under. -/
theorem getShellServerResponse_exit (p : Platform) (tx : StopWaitTx) (enc : DatagramEncryptor)
    (dec : DatagramDecryptor) (connector : ℕ → Try) (request : Bytes) :
    CallExit p tx dec connector request
      (getShellServerResponse p tx enc dec connector request) := by
  unfold getShellServerResponse StopWaitTx.getNextSequenceNumber
  by_cases hlength : shMaxMsglen < request.length
  · rw [if_pos hlength]
    exact .tooLong hlength
  · rw [if_neg hlength]
    -- only an empty request or the last number keeps the encryption from returning
    have hrefused (h : ∀ out, DatagramEncryptor.encryptAndAuthenticate p enc Session.bufferSize
        request tx.m_expectedSeqNum ≠ .returns out) :
        request.length = 0 ∨ tx.m_expectedSeqNum = 0xFFFFFFFFFFFFFFFF := by
      by_contra hnone
      rw [not_or] at hnone
      obtain ⟨datagram, -, hencrypt, -⟩ := protect_open p enc (Nat.pos_of_ne_zero hnone.1)
        (Nat.le_of_not_lt hlength) hnone.2
      exact h datagram hencrypt
    cases hencrypt : DatagramEncryptor.encryptAndAuthenticate p enc Session.bufferSize request
        tx.m_expectedSeqNum with
    | fault => exact .refused .fault (by simp) (hrefused (by simp [hencrypt]))
    | throws e => exact .refused (.throws e) (by simp) (hrefused (by simp [hencrypt]))
    | returns encryptedRequest =>
      have hanswered := tx.sendLoop_eq_true_iff p.host tx.m_repetitions connector []
      have hnext := tx.sendLoop_expectedSeqNum p.host tx.m_repetitions connector []
      dsimp only
      unfold StopWaitTx.sendReliableMessage
      rcases hsend : tx.sendLoop p.host tx.m_repetitions connector [] with ⟨⟨ok, response⟩, tx'⟩
      rw [hsend] at hanswered hnext
      cases ok with
      | false =>
        obtain rfl : tx' = tx := by simpa using hnext
        exact .unanswered _ (by simpa using hanswered)
      | true =>
        obtain rfl : tx' = { tx with m_expectedSeqNum := tx.m_expectedSeqNum + 1 } := by
          simpa using hnext
        exact .answered _ response (by simpa using hanswered)
          (encryptAndAuthenticate_returns hencrypt).2.2.1

/-- What the loop encrypts for a line that is passed to the server: first the line, and
more only under the next number. -/
theorem shellLoop_cons (p : Platform) (enc : DatagramEncryptor) (dec : DatagramDecryptor)
    (failed : Bool) (tx : StopWaitTx) (network : ℕ → ℕ → Try) {line : Bytes} (lines : List Bytes)
    (hne : line.length ≠ 0) (hexit : line ≠ string2bytes "exit") :
    (shMaxMsglen < line.length ∧
      (shellLoop p enc dec failed tx network (line :: lines)).encrypted = []) ∨
    ∃ rest, (shellLoop p enc dec failed tx network (line :: lines)).encrypted =
        (tx.m_expectedSeqNum, line) :: rest ∧
      (rest = [] ∨ tx.m_expectedSeqNum ≠ 0xFFFFFFFFFFFFFFFF ∧
        rest = (shellLoop p enc dec failed { tx with m_expectedSeqNum := tx.m_expectedSeqNum + 1 }
          (fun k => network (k + 1)) lines).encrypted) := by
  have hexits := getShellServerResponse_exit p tx enc dec (network 0) line
  rw [shellLoop, if_neg hne, if_neg hexit]
  generalize getShellServerResponse p tx enc dec (network 0) line = call at hexits
  cases hexits with
  | tooLong hlength => exact .inl ⟨hlength, rfl⟩
  | refused outcome houtcome _ =>
    right
    cases outcome with
    | fault => exact ⟨[], rfl, .inl rfl⟩
    | throws e => exact ⟨[], rfl, .inl rfl⟩
    | returns returned => exact absurd rfl (houtcome returned)
  | unanswered message _ => exact .inr ⟨[], rfl, .inl rfl⟩
  | answered message response _ hseq =>
    right
    dsimp only
    cases readResponse p dec tx.m_expectedSeqNum response with
    | fault => exact ⟨[], rfl, .inl rfl⟩
    | throws e => exact ⟨[], rfl, .inl rfl⟩
    | returns returned =>
      obtain ⟨rval, shellResponse⟩ := returned
      dsimp only
      split
      · exact ⟨[], rfl, .inl rfl⟩
      · exact ⟨_, rfl, .inr ⟨hseq, rfl⟩⟩

/-- From its number on, the loop uses every nonce once. -/
theorem shellLoop_fresh (p : Platform) (enc : DatagramEncryptor) (dec : DatagramDecryptor)
    (failed : Bool) (tx : StopWaitTx) (network : ℕ → ℕ → Try) (lines : List Bytes) :
    Fresh (shellLoop p enc dec failed tx network lines).encrypted ∧
      ∀ e ∈ (shellLoop p enc dec failed tx network lines).encrypted,
        tx.m_expectedSeqNum.toNat ≤ e.1.toNat := by
  induction lines generalizing tx network with
  | nil => exact ⟨fresh_nil, fun e he => by cases he⟩
  | cons line lines ih =>
    by_cases hne : line.length = 0
    · unfold shellLoop
      rw [if_pos hne]
      exact ih tx network
    · by_cases hexit : line = string2bytes "exit"
      · unfold shellLoop
        rw [if_neg hne, if_pos hexit]
        exact ⟨fresh_nil, fun e he => by cases he⟩
      · obtain ⟨-, hnil⟩ | ⟨rest, hlog, hrest⟩ :=
          shellLoop_cons p enc dec failed tx network lines hne hexit
        · rw [hnil]
          exact ⟨fresh_nil, fun e he => by cases he⟩
        · rw [hlog]
          obtain rfl | ⟨hseq, rfl⟩ := hrest
          · refine ⟨fresh_singleton _ _, fun e he => ?_⟩
            rw [List.mem_singleton.mp he]
          · obtain ⟨hfresh, habove⟩ := ih
              { tx with m_expectedSeqNum := tx.m_expectedSeqNum + 1 } (fun k => network (k + 1))
            rw [toNat_succ hseq] at habove
            refine ⟨hfresh.cons UInt64.toNat habove line, fun e he => ?_⟩
            obtain rfl | he := List.mem_cons.mp he
            · exact le_rfl
            · exact Nat.le_of_succ_le (habove e he)

/-- The first line that is not empty. -/
def firstLine (lines : List Bytes) : Option Bytes := lines.find? fun line => line.length ≠ 0

/-- The first line of the user ends the session or repeats the request for the host name. -/
def Harmless (lines : List Bytes) : Prop :=
  ∀ line, firstLine lines = some line →
    line = string2bytes "exit" ∨ line = string2bytes "hostname"

/-- Behind a call under the number of the loop the log stays fresh exactly as long as
the loop does not begin with another text. -/
theorem shellLoop_fresh_iff (p : Platform) (enc : DatagramEncryptor) (dec : DatagramDecryptor)
    (failed : Bool) (tx : StopWaitTx) (network : ℕ → ℕ → Try) {lines : List Bytes}
    (hlines : ∀ line ∈ lines, line.length ≤ shMaxMsglen) :
    Fresh ((tx.m_expectedSeqNum, string2bytes "hostname") ::
        (shellLoop p enc dec failed tx network lines).encrypted) ↔ Harmless lines := by
  induction lines generalizing network with
  | nil =>
    refine iff_of_true (fresh_singleton _ _) ?_
    intro line hline
    cases hline
  | cons line lines ih =>
    by_cases hne : line.length = 0
    · have hfirst : firstLine (line :: lines) = firstLine lines := by
        simp [firstLine, List.length_eq_zero_iff.mp hne]
      unfold shellLoop Harmless
      rw [if_pos hne, hfirst]
      exact ih network fun l hl => hlines l (List.mem_cons_of_mem line hl)
    · have hfirst : firstLine (line :: lines) = some line := by
        simp [firstLine, List.ne_nil_of_length_pos (Nat.pos_of_ne_zero hne)]
      have hharmless : Harmless (line :: lines) ↔
          line = string2bytes "exit" ∨ line = string2bytes "hostname" := by
        unfold Harmless
        rw [hfirst]
        constructor
        · intro h
          exact h line rfl
        · rintro h line' hline
          obtain rfl := Option.some.inj hline
          exact h
      rw [hharmless]
      by_cases hexit : line = string2bytes "exit"
      · refine iff_of_true ?_ (.inl hexit)
        unfold shellLoop
        rw [if_neg hne, if_pos hexit]
        exact fresh_singleton _ _
      · obtain ⟨hlength, -⟩ | ⟨rest, hlog, hrest⟩ :=
          shellLoop_cons p enc dec failed tx network lines hne hexit
        · exact absurd hlength (Nat.not_lt.mpr (hlines line List.mem_cons_self))
        · rw [hlog]
          constructor
          · intro hfresh
            right
            exact hfresh _ _ _ (List.mem_cons_of_mem _ List.mem_cons_self) List.mem_cons_self
          · intro h
            obtain rfl := h.resolve_left hexit
            have hloop := (shellLoop_fresh p enc dec failed tx network
              (string2bytes "hostname" :: lines)).1
            rw [hlog] at hloop
            exact hloop.mono (List.cons_subset.mpr ⟨List.mem_cons_self, List.Subset.refl _⟩)

/-- The texts from the terminal fit into its buffer. -/
theorem length_terminal (lines : List Bytes) :
    ∀ line ∈ terminal lines, line.length ≤ shMaxMsglen := by
  have hmsg : shMaxMsglen = 60000 := rfl
  have hline : shTerminalMaxLinLen = 512 := rfl
  induction lines with
  | nil =>
    intro line hmem
    cases hmem
  | cons first lines ih =>
    unfold terminal
    split
    · intro line hmem
      obtain rfl | hmem := List.mem_cons.mp hmem
      · have hle := (List.takeWhile_sublist (p := (· ≠ 0)) (l := first)).length_le
        omega
      · exact ih line hmem
    · intro line hmem
      obtain rfl := List.mem_singleton.mp hmem
      have hle := (List.takeWhile_sublist (p := (· ≠ 0))
        (l := first.take (shTerminalMaxLinLen - 1))).length_le
      rw [List.length_take] at hle
      omega

/-- A call whose result is true has used up its number. -/
theorem sendReliableMessage_true {host : ByteOrder} {tx tx' : StopWaitTx}
    {connector : ℕ → Try} {response : Bytes}
    (h : tx.sendReliableMessage host connector = ((true, response), tx')) :
    tx' = { tx with m_expectedSeqNum := tx.m_expectedSeqNum + 1 } := by
  have hnext := tx.sendLoop_expectedSeqNum host tx.m_repetitions connector []
  unfold StopWaitTx.sendReliableMessage at h
  rw [h] at hnext
  simpa using hnext

/-- A login ends with a key of two digests, and its two messages have used up two
numbers. -/
theorem login_eq_ok {p : Platform} {math : OsslMathImpl} {random : Except DsrpException Bytes}
    {tx tx' : StopWaitTx} {network : ℕ → ℕ → Try} {username password K : Bytes}
    (h : login p math random tx network username password = .ok (K, tx')) :
    K.length = 2 * math.hash.outputLen ∧
      tx' = { tx with m_expectedSeqNum := tx.m_expectedSeqNum + 1 + 1 } := by
  obtain ⟨sca, request, response, tx₁, srpSalt, srpB, srpM1, sca', request', response', srpM2, -, -,
    hsend, -, hM1, -, hsend', -, hsessionK⟩ := login_eq_ok_iff.mp h
  constructor
  · rw [SrpClientAuthenticator.getSessionKey_eq_ok hsessionK]
    exact length_getM1_K hM1
  · rw [sendReliableMessage_true hsend', sendReliableMessage_true hsend]

/-- With a login behind it and its first call under the number of the loop, the client
keeps its log fresh as long as that call is answered or what follows is harmless. -/
theorem shell_fresh_iff {p : Platform} {K : Bytes} {tx : StopWaitTx} {network : ℕ → ℕ → Try}
    (hK : 16 ≤ K.length) (hseq : tx.m_expectedSeqNum ≠ 0xFFFFFFFFFFFFFFFF)
    (input : TerminalInput) :
    Fresh (shell p K tx network input).encrypted ↔
      tx.Answered p.host tx.m_repetitions (network 0) ∨ Harmless (terminal input.lines) := by
  obtain ⟨enc, dec, hcrypto, -⟩ := deriveCrypto_opposite p hK
  have hexit := getShellServerResponse_exit p tx enc dec (network 0) (string2bytes "hostname")
  unfold shell
  rw [hcrypto]
  dsimp only
  generalize getShellServerResponse p tx enc dec (network 0) (string2bytes "hostname") = call
    at hexit
  cases hexit with
  | tooLong hlength => exact absurd hlength (by decide)
  | refused outcome _ hrefused =>
    obtain hempty | hlast := hrefused
    · exact absurd hempty (by decide)
    · exact absurd hlast hseq
  | unanswered message hanswered =>
    rw [or_iff_right hanswered]
    exact shellLoop_fresh_iff p enc dec (terminalFails input) tx (fun k => network (k + 1))
      (length_terminal input.lines)
  | answered message response hanswered _ =>
    refine iff_of_true ?_ (.inl hanswered)
    dsimp only
    cases readResponse p dec tx.m_expectedSeqNum response with
    | fault => exact fresh_singleton _ _
    | throws e => exact fresh_singleton _ _
    | returns returned =>
      obtain ⟨hfresh, habove⟩ := shellLoop_fresh p enc dec (terminalFails input)
        { tx with m_expectedSeqNum := tx.m_expectedSeqNum + 1 } (fun k => network (k + 1))
        (terminal input.lines)
      rw [toNat_succ hseq] at habove
      exact hfresh.cons UInt64.toNat habove (string2bytes "hostname")

/-- What both ends of an authenticated session encrypt. The client keeps its nonces apart
exactly when its request for the host name is answered, or the user's first line ends the
session or asks for the host name again. The server always does. -/
theorem nonces_fresh_iff {p : Platform} {random : Except DsrpException Bytes}
    {tx tx' : StopWaitTx} {network : ℕ → ℕ → Try} {username password K : Bytes}
    (hnew : tx.m_expectedSeqNum = 1)
    (hlogin : login p (shellMath p) random tx network username password = .ok (K, tx'))
    (input : TerminalInput) :
    (Fresh (run p (shellMath p) random tx network username password input).encrypted ↔
      ({ tx with m_expectedSeqNum := 3 } : StopWaitTx).Answered p.host tx.m_repetitions
        (network 2) ∨ Harmless (terminal input.lines)) ∧
    ∀ (srv : ShellServer) (serverAddress clientAddress : SanAddress)
      (serverPort clientPort : UInt16) (arrivals : List Arrival) (s : ServerEnd),
      Execution.run (ServerEnd.receive srv)
        (ServerEnd.create serverAddress serverPort clientAddress clientPort) arrivals = some s →
      Fresh s.encrypted := by
  constructor
  · obtain ⟨hK, rfl⟩ := login_eq_ok hlogin
    have hlength : (shellMath p).hash.outputLen = 20 := rfl
    have hseq : (1 + 1 + 1 : UInt64) ≠ 0xFFFFFFFFFFFFFFFF := by decide
    unfold run
    rw [hlogin]
    simp only [hnew]
    exact shell_fresh_iff (by omega) hseq input
  · intro srv serverAddress clientAddress serverPort clientPort arrivals s hrun
    exact ServerEnd.fresh_of_run hrun

/-- A capsule from the server of `sampleTx`. -/
def sampleCapsule (seq : UInt64) (payload : Bytes) : CCapsule :=
  CCapsule.setDSdata .littleEndian
    ⟨false, true, sampleTx.m_clientAddress, sampleTx.m_serverAddress, sampleTx.m_clientAddress,
      FixedBytes.replicate 20 0, 0, []⟩
    sampleTx.m_clientPort sampleTx.m_serverPort (message .littleEndian seq payload)

/-- The server answers both messages of a login; what is sent afterwards is lost. -/
def sampleNetwork : ℕ → ℕ → Try
  | 0, _ => ⟨true, some (sampleCapsule 1 (serverMessage encMsgTypeP 0
      ([16] ++ List.replicate 16 1 ++ [1] ++ List.replicate 75 0)))⟩
  | 1, _ => ⟨true, some (sampleCapsule 2 (serverMessage encMsgTypeQ 0
      (List.replicate 19 0 ++ [3])))⟩
  | _, _ => ⟨true, none⟩

/-- The secret exponent of the client, 600. -/
def sampleRandom : Except DsrpException Bytes := .ok (List.replicate 30 0 ++ [2, 88])

/-- The login on the sample network ends with a session key. -/
theorem sampleLogin : login Session.samplePlatform (shellMath Session.samplePlatform) sampleRandom
    { sampleTx with m_expectedSeqNum := 1 } sampleNetwork (string2bytes "u") (string2bytes "p") =
      .ok (List.replicate 38 0 ++ [5, 3], sampleTx) := by
  decide +kernel

/-- The user leaves at once. -/
theorem nonces_fresh_exit : Fresh (run Session.samplePlatform (shellMath Session.samplePlatform)
    sampleRandom { sampleTx with m_expectedSeqNum := 1 } sampleNetwork (string2bytes "u")
    (string2bytes "p") ⟨[string2bytes "exit"], true⟩).encrypted := by
  refine (nonces_fresh_iff rfl sampleLogin ⟨[string2bytes "exit"], true⟩).1.mpr (.inr ?_)
  intro line hline
  have hfirst : firstLine (terminal [string2bytes "exit"]) = some (string2bytes "exit") := by
    decide
  exact .inl (Option.some.inj (hline.symm.trans hfirst))

/-- With its host name request lost the client encrypts the first line of the user under
the same number. -/
theorem nonce_reused :
    ∃ K tx, login Session.samplePlatform (shellMath Session.samplePlatform) sampleRandom
        { sampleTx with m_expectedSeqNum := 1 } sampleNetwork (string2bytes "u")
        (string2bytes "p") = .ok (K, tx) ∧
      ¬ Fresh (run Session.samplePlatform (shellMath Session.samplePlatform) sampleRandom
        { sampleTx with m_expectedSeqNum := 1 } sampleNetwork (string2bytes "u")
        (string2bytes "p") ⟨[string2bytes "uptime"], false⟩).encrypted := by
  refine ⟨_, _, sampleLogin, ?_⟩
  have hlog : (shell Session.samplePlatform (List.replicate 38 0 ++ [5, 3]) sampleTx
      (fun k => sampleNetwork (k + 2)) ⟨[string2bytes "uptime"], false⟩).encrypted =
      [(3, string2bytes "hostname"), (3, string2bytes "uptime")] := by
    decide +kernel
  unfold run
  rw [sampleLogin]
  dsimp only
  rw [hlog]
  exact not_fresh List.mem_cons_self (List.mem_cons_of_mem _ List.mem_cons_self) (by decide)

end ClientSession

end San2.Shell
