import San2.Shell.SessionAnswers

/-!
# The replies to a login

In ZERO a session answers every datagram with a P message. Which one it is follows from
the parser, the database and the computation of the verificator, in this order. A
datagram that is no A message goes on to the database with the empty username, and what
comes from there replaces the message that was constructed for the parser.
-/

namespace San2.Shell

open Utils DragonSRP

/-- The datagram that is sent back. -/
def Step.reply (step : Step) : Option Bytes :=
  if step.result then some step.response else none

/-- The user is known, and the secret of the server or its challenge throws. -/
def ComputationThrows (srv : ShellServer) (env : Environment) (username srpA : Bytes) : Prop :=
  ∃ usr e, srv.lookup username = some usr ∧
    (env.random = .error e ∨
      ∃ b, env.random = .ok b ∧
        srv.math.serverChallange username usr.salt usr.verificator srpA b true = .error e)

/-- The P message of a failure. -/
abbrev pFailure (errorCode : UInt8) : Option Bytes := some (enc_construct_P_message_fail errorCode)

/-- Different error codes give different replies. -/
theorem pFailure_inj {a b : UInt8} : pFailure a = pFailure b ↔ a = b := by
  constructor
  · intro h
    have hbytes : [encProtocolId, encMsgTypeP, a] = [encProtocolId, encMsgTypeP, b] :=
      Option.some.inj h
    simpa using hbytes
  · rintro rfl
    rfl

/-- A challenge is no failure. -/
theorem pFailure_ne_success {salt srpB response : Bytes} {errorCode : UInt8}
    (h : enc_construct_P_message_success salt srpB = .ok response) (hcode : errorCode ≠ 0) :
    some response ≠ pFailure errorCode := by
  obtain ⟨-, -, -, -, rfl⟩ := enc_construct_P_message_success_eq_ok.mp h
  intro heq
  have hcodes : (some (0 : UInt8)) = some errorCode :=
    congrArg (fun message => message.bind fun bytes : Bytes => bytes[2]?) heq
  exact hcode (Option.some.inj hcodes).symm

/-- The code that a login fails with when its verificator cannot be computed. -/
def loginErrorcode : SrpException → UInt8
  | .userNotFound _ _ => shErrorcodeUserNotFound
  | .dsrp _ => shErrorcodeSrpError

section Verificator

variable {srv : ShellServer} {env : Environment} {username srpA : Bytes}

/-- `getVerificator` reports an unknown user exactly when the lookup has none of that name. -/
theorem getVerificator_userNotFound_iff :
    (∃ what name, getVerificator srv.math srv.lookup env.random true username srpA =
      .error (.userNotFound what name)) ↔ srv.lookup username = none := by
  unfold getVerificator
  cases hlookup : srv.lookup username with
  | none => exact iff_of_true ⟨_, _, rfl⟩ rfl
  | some usr =>
    refine iff_of_false ?_ (Option.some_ne_none usr)
    rintro ⟨what, name, h⟩
    cases hrandom : env.random with
    | error e =>
      rw [hrandom] at h
      cases h
    | ok b =>
      rw [hrandom] at h
      dsimp only at h
      cases hserver : srv.math.serverChallange username usr.salt usr.verificator srpA b true with
      | error e =>
        rw [hserver] at h
        cases h
      | ok s =>
        rw [hserver] at h
        cases h

/-- It fails with an error of the arithmetic exactly when the user is known and the computation
throws. -/
theorem getVerificator_dsrp_iff :
    (∃ e, getVerificator srv.math srv.lookup env.random true username srpA =
      .error (.dsrp e)) ↔ ComputationThrows srv env username srpA := by
  unfold getVerificator ComputationThrows
  cases hlookup : srv.lookup username with
  | none =>
    refine iff_of_false ?_ (by simp)
    rintro ⟨e, h⟩
    cases h
  | some usr =>
    cases hrandom : env.random with
    | error e => exact iff_of_true ⟨e, rfl⟩ ⟨usr, e, rfl, .inl rfl⟩
    | ok b =>
      dsimp only
      cases hserver : srv.math.serverChallange username usr.salt usr.verificator srpA b true with
      | error e => exact iff_of_true ⟨e, rfl⟩ ⟨usr, e, rfl, .inr ⟨b, rfl, hserver⟩⟩
      | ok s =>
        refine iff_of_false ?_ ?_
        · rintro ⟨e, h⟩
          cases h
        · rintro ⟨usr', e, husr, hrandom' | ⟨b', hb, hserver'⟩⟩
          · cases hrandom'
          · cases husr
            cases hb
            rw [hserver] at hserver'
            cases hserver'

end Verificator

namespace Session

/-- What a login is answered with, for a datagram that is an A message and for one that is
not. -/
structure ZeroReplies (srv : ShellServer) (env : Environment) (request : Bytes) (s : Session)
    (step : Step) : Prop where
  /-- The parser refuses the datagram. -/
  invalid : ∀ code, enc_parse_A_message env.beyond request = .error code →
    step.reply = pFailure shErrorcodeParsingFailed ∧ step.session.ver = s.ver ∧
      step.session.m_state = .zero
  userNotFound : ∀ username srpA, enc_parse_A_message env.beyond request = .ok (username, srpA) →
    (step.reply = pFailure shErrorcodeUserNotFound ↔ srv.lookup username = none)
  srpError : ∀ username srpA, enc_parse_A_message env.beyond request = .ok (username, srpA) →
    (step.reply = pFailure shErrorcodeSrpError ↔ ComputationThrows srv env username srpA)
  /-- The salt is the user's and the public value the one that is stored. -/
  offer : ∀ username srpA usr, enc_parse_A_message env.beyond request = .ok (username, srpA) →
    srv.lookup username = some usr → ¬ ComputationThrows srv env username srpA →
    ∃ ver, getVerificator srv.math srv.lookup env.random true username srpA = .ok ver ∧
      (16 ≤ usr.salt.length → usr.salt.length ≤ 64 → 64 ≤ ver.BB.length → ver.BB.length ≤ 1024 →
        step.reply = some (serverMessage encMsgTypeP 0
          ([UInt8.ofNat usr.salt.length] ++ usr.salt ++ ver.BB)) ∧
        step.session.ver = ver ∧ step.session.m_state = .alpha)

section Replies

variable {srv : ShellServer} {env : Environment} {request : Bytes} {s : Session}

/-- Behind the parser the reply depends on the verificator alone. -/
theorem reply_processZero_error {username srpA : Bytes}
    (hparse : enc_parse_A_message env.beyond request = .ok (username, srpA)) {e : SrpException}
    (hver : getVerificator srv.math srv.lookup env.random true username srpA = .error e) :
    (processZero srv env request s).reply = pFailure (loginErrorcode e) := by
  unfold processZero
  rw [hparse]
  dsimp only
  rw [hver]
  cases e <;> rfl

/-- A login that goes through offers a challenge or has no reply. -/
theorem reply_processZero_ok {username srpA : Bytes}
    (hparse : enc_parse_A_message env.beyond request = .ok (username, srpA))
    {ver : SrpVerificator}
    (hver : getVerificator srv.math srv.lookup env.random true username srpA = .ok ver) :
    (processZero srv env request s).reply =
        (enc_construct_P_message_success ver.salt ver.BB).toOption ∧
      (∀ response, enc_construct_P_message_success ver.salt ver.BB = .ok response →
        (processZero srv env request s).session.ver = ver ∧
          (processZero srv env request s).session.m_state = .alpha) := by
  unfold processZero
  rw [hparse]
  dsimp only
  rw [hver]
  dsimp only
  cases enc_construct_P_message_success ver.salt ver.BB with
  | error code => exact ⟨rfl, fun response h => nomatch h⟩
  | ok response => exact ⟨rfl, fun _ _ => ⟨rfl, rfl⟩⟩

/-- A reply to a completed challenge is none of the failures. -/
theorem reply_processZero_ok_ne_pFailure {username srpA : Bytes}
    (hparse : enc_parse_A_message env.beyond request = .ok (username, srpA))
    {ver : SrpVerificator}
    (hver : getVerificator srv.math srv.lookup env.random true username srpA = .ok ver)
    {errorCode : UInt8} (hcode : errorCode ≠ 0) :
    (processZero srv env request s).reply ≠ pFailure errorCode := by
  rw [(reply_processZero_ok hparse hver).1]
  cases hresponse : enc_construct_P_message_success ver.salt ver.BB with
  | error code => exact fun h => nomatch h
  | ok response => exact pFailure_ne_success hresponse hcode

/-- A datagram that the parser refuses is answered as if it asked for the empty username. -/
theorem reply_processZero_invalid {code : ℤ}
    (hparse : enc_parse_A_message env.beyond request = .error code) :
    (processZero srv env request s).reply = pFailure shErrorcodeUserNotFound ∨
      (processZero srv env request s).reply = pFailure shErrorcodeSrpError := by
  have husername : s.resetState.m_srpUsername = [] := rfl
  have hsrpA : s.resetState.m_srpA = [] := rfl
  unfold processZero
  rw [hparse]
  dsimp only
  rw [husername, hsrpA]
  cases hver : getVerificator srv.math srv.lookup env.random true [] [] with
  | error e =>
    cases e with
    | userNotFound what username => exact .inl rfl
    | dsrp e => exact .inr rfl
  | ok ver => exact absurd hver (getVerificator_nil_ne_ok _ _ _ _ _ _)

/-- The failures that are reported are those of the verificator. -/
theorem reply_eq_pFailure_iff {username srpA : Bytes}
    (hparse : enc_parse_A_message env.beyond request = .ok (username, srpA)) {errorCode : UInt8}
    (hcode : errorCode ≠ 0) :
    (processZero srv env request s).reply = pFailure errorCode ↔
      ∃ e, getVerificator srv.math srv.lookup env.random true username srpA = .error e ∧
        loginErrorcode e = errorCode := by
  cases hver : getVerificator srv.math srv.lookup env.random true username srpA with
  | error e =>
    rw [reply_processZero_error hparse hver, pFailure_inj]
    constructor
    · intro h
      exact ⟨e, rfl, h⟩
    · rintro ⟨e', he, h⟩
      cases he
      exact h
  | ok ver =>
    refine iff_of_false (reply_processZero_ok_ne_pFailure hparse hver hcode) ?_
    rintro ⟨e, he, -⟩
    cases he

/-- The reply names an unknown user exactly when the lookup has none of that name. -/
theorem reply_userNotFound_iff {username srpA : Bytes}
    (hparse : enc_parse_A_message env.beyond request = .ok (username, srpA)) :
    (processZero srv env request s).reply = pFailure shErrorcodeUserNotFound ↔
      srv.lookup username = none := by
  rw [reply_eq_pFailure_iff hparse (by decide), ← @getVerificator_userNotFound_iff srv env _ srpA]
  constructor
  · rintro ⟨e, hver, hcode⟩
    cases e with
    | userNotFound what name => exact ⟨what, name, hver⟩
    | dsrp e => exact absurd hcode (by decide : shErrorcodeSrpError ≠ shErrorcodeUserNotFound)
  · rintro ⟨what, name, hver⟩
    exact ⟨_, hver, rfl⟩

/-- The reply names an arithmetic error exactly when the user is known and the computation
throws. -/
theorem reply_srpError_iff {username srpA : Bytes}
    (hparse : enc_parse_A_message env.beyond request = .ok (username, srpA)) :
    (processZero srv env request s).reply = pFailure shErrorcodeSrpError ↔
      ComputationThrows srv env username srpA := by
  rw [reply_eq_pFailure_iff hparse (by decide), ← getVerificator_dsrp_iff]
  constructor
  · rintro ⟨e, hver, hcode⟩
    cases e with
    | userNotFound what name =>
      exact absurd hcode (by decide : shErrorcodeUserNotFound ≠ shErrorcodeSrpError)
    | dsrp e => exact ⟨e, hver⟩
  · rintro ⟨e, hver⟩
    exact ⟨_, hver, rfl⟩

/-- What is neither unknown nor refused has a verificator, with the salt of the user. -/
theorem verificator_of_lookup {username srpA : Bytes} {usr : User}
    (hlookup : srv.lookup username = some usr)
    (hthrows : ¬ComputationThrows srv env username srpA) :
    ∃ ver, getVerificator srv.math srv.lookup env.random true username srpA = .ok ver ∧
      ver.salt = usr.salt := by
  cases hver : getVerificator srv.math srv.lookup env.random true username srpA with
  | error e =>
    cases e with
    | userNotFound what name =>
      have hnone := getVerificator_userNotFound_iff.mp ⟨what, name, hver⟩
      rw [hlookup] at hnone
      cases hnone
    | dsrp e => exact absurd (getVerificator_dsrp_iff.mp ⟨e, hver⟩) hthrows
  | ok ver =>
    obtain ⟨usr', b, server, hlookup', -, -, hverificator⟩ := getVerificator_eq_ok.mp hver
    have husr : usr' = usr := Option.some.inj (hlookup'.symm.trans hlookup)
    refine ⟨ver, rfl, ?_⟩
    rw [hverificator, husr]
    rfl

/-- What an A message is answered with. -/
theorem zeroReplies_of_parsed {username srpA : Bytes}
    (hparse : enc_parse_A_message env.beyond request = .ok (username, srpA)) :
    ZeroReplies srv env request s (processZero srv env request s) := by
  constructor
  case invalid =>
    intro code h
    rw [hparse] at h
    cases h
  case userNotFound =>
    intro username' srpA' h
    exact reply_userNotFound_iff h
  case srpError =>
    intro username' srpA' h
    exact reply_srpError_iff h
  case offer =>
    intro username' srpA' usr h hlookup hthrows
    obtain ⟨ver, hver, hsalt⟩ := verificator_of_lookup hlookup hthrows
    refine ⟨ver, hver, fun hmin hmax hminB hmaxB => ?_⟩
    have hresponse := enc_construct_P_message_success_eq_ok.mpr ⟨hmin, hmax, hminB, hmaxB, rfl⟩
    rw [← hsalt] at hresponse
    obtain ⟨hreply, hstored⟩ :=
      @reply_processZero_ok srv env request s username' srpA' h ver hver
    refine ⟨?_, hstored _ hresponse⟩
    rw [hreply, hresponse, hsalt]
    rfl

end Replies

/-- The replies of ZERO are right for A messages, and for no other datagram. -/
theorem zeroReplies_iff {srv : ShellServer} {env : Environment} {sequenceNumber : UInt64}
    {request : Bytes} {s : Session} {step : Step} (hstate : s.m_state = .zero)
    (hstep : s.processDatagram srv env sequenceNumber request = some step) :
    ZeroReplies srv env request s step ↔
      ∃ username srpA, enc_parse_A_message env.beyond request = .ok (username, srpA) := by
  have hzero : s.processDatagram srv env sequenceNumber request =
      some (processZero srv env request s) := by
    unfold processDatagram
    rw [hstate]
  obtain rfl : processZero srv env request s = step := Option.some.inj (hzero.symm.trans hstep)
  constructor
  · intro h
    cases hparse : enc_parse_A_message env.beyond request with
    | ok parsed => exact ⟨parsed.1, parsed.2, rfl⟩
    | error code =>
      have hreply := (h.invalid code hparse).1
      obtain hother | hother := @reply_processZero_invalid srv env request s code hparse
      · rw [hother, pFailure_inj] at hreply
        exact absurd hreply (by decide)
      · rw [hother, pFailure_inj] at hreply
        exact absurd hreply (by decide)
  · rintro ⟨username, srpA, hparse⟩
    exact zeroReplies_of_parsed hparse

/-- A login under an unknown name. -/
theorem zeroReplies_unknownName :
    let env : Environment := ⟨.ok [], 0, fun _ _ => (true, [])⟩
    let request := clientMessage encMsgTypeA (string2bytes "v" ++ [0] ++ List.replicate 64 1)
    ZeroReplies sampleServer env request create (processZero sampleServer env request create) :=
  (@zeroReplies_iff sampleServer _ 1 _ create _ rfl rfl).mpr
    ⟨string2bytes "v", List.replicate 64 1, by decide⟩

/-- An empty datagram is told that its user does not exist. -/
theorem zeroReplies_emptyDatagram :
    ¬ ∀ (srv : ShellServer) (env : Environment) (sequenceNumber : UInt64) (request : Bytes)
      (s : Session) (step : Step), s.m_state = .zero →
      s.processDatagram srv env sequenceNumber request = some step →
      ZeroReplies srv env request s step := by
  intro h
  have hempty := h sampleServer ⟨.ok [], 0, fun _ _ => (true, [])⟩ 1 [] create _ rfl rfl
  exact absurd (hempty.invalid (-1) rfl).1 (by decide)

end Session

end San2.Shell
