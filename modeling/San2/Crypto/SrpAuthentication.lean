import San2.Crypto.OsslMathImpl

/-!
# The two ends of a login

`SrpServer` turns a user of the password file and the client's public value into
an `SrpVerificator`, which then checks the client's message `M1`. `SrpClient`
keeps its side in an `SrpClientAuthenticator` and checks `M2`. A login succeeds
when both ends come to the same messages and the same key.
-/

namespace San2.DragonSRP

open OsslConversion BigEndian

/-- A user of the password file. -/
structure User where
  username : Bytes
  verificator : Bytes
  salt : Bytes
  deriving DecidableEq, Repr

/-- `MemoryLookup::db`: the users by name. -/
abbrev LookupInterface := Bytes → Option User

/-- `UserNotFoundException` derives from `DsrpException` and is caught before it. -/
inductive SrpException
  | userNotFound (what : String) (username : Bytes)
  | dsrp (e : DsrpException)
  deriving DecidableEq, Repr

/-- The default constructor leaves every vector empty. -/
structure SrpVerificator where
  salt : Bytes := []
  BB : Bytes := []
  calc_M1 : Bytes := []
  calc_M2 : Bytes := []
  username : Bytes := []
  KK : Bytes := []
  deriving DecidableEq, Repr

/-- `authenticate` returns `M2_to_client` and `session_K`. -/
def SrpVerificator.authenticate (ver : SrpVerificator) (M1_from_client : Bytes) :
    Except DsrpException (Bytes × Bytes) :=
  if ver.calc_M1.length = 0 then
    throw ⟨"SrpVerificator::authenticate: calc_M1.size() == 0"⟩
  else if M1_from_client.length = 0 then
    throw ⟨"SrpVerificator::authenticate: M1_from_client.size() == 0"⟩
  else if ver.calc_M1 ≠ M1_from_client then
    throw ⟨"Authentification failed; possibly wrong password"⟩
  else return (ver.calc_M2, ver.KK)

/-- Exactly the calculated message is accepted, and it must not be empty. -/
theorem SrpVerificator.authenticate_eq_ok {ver : SrpVerificator} {M1 M2 K : Bytes} :
    ver.authenticate M1 = .ok (M2, K) ↔
      M1 = ver.calc_M1 ∧ M1 ≠ [] ∧ M2 = ver.calc_M2 ∧ K = ver.KK := by
  simp only [authenticate, ite_throw_eq_ok, List.length_eq_zero_iff, pure_eq_ok, Prod.mk.injEq,
    ne_eq, not_not]
  constructor
  · rintro ⟨-, hne, rfl, rfl, rfl⟩
    exact ⟨rfl, hne, rfl, rfl⟩
  · rintro ⟨rfl, hne, rfl, rfl⟩
    exact ⟨hne, hne, rfl, rfl, rfl⟩

/-- The verificator object that a challenge leaves with the server. -/
def ServerChallange.verificator (s : ServerChallange) (username salt : Bytes) : SrpVerificator :=
  ⟨salt, s.B_out, s.M1_out, s.M2_out, username, s.K_out⟩

/-- `SrpServer::getVerificator`. The ephemeral secret is what `getRandom(32)` delivers. -/
def getVerificator (math : OsslMathImpl) (lookup : LookupInterface)
    (random : Except DsrpException Bytes) (interleave : Bool) (username AA : Bytes) :
    Except SrpException SrpVerificator :=
  match lookup username with
  | none => throw (.userNotFound "User not found." username)
  | some usr =>
    match random with
    | .error e => throw (.dsrp e)
    | .ok b =>
      match math.serverChallange username usr.salt usr.verificator AA b interleave with
      | .error e => throw (.dsrp e)
      | .ok s => return s.verificator username usr.salt

/-- A verificator is the challenge of a user that exists. -/
theorem getVerificator_eq_ok {math : OsslMathImpl} {lookup : LookupInterface}
    {random : Except DsrpException Bytes} {interleave : Bool} {username AA : Bytes}
    {ver : SrpVerificator} :
    getVerificator math lookup random interleave username AA = .ok ver ↔
      ∃ usr b s, lookup username = some usr ∧ random = .ok b ∧
        math.serverChallange username usr.salt usr.verificator AA b interleave = .ok s ∧
        ver = s.verificator username usr.salt := by
  unfold getVerificator
  constructor
  · intro h
    split at h
    · exact absurd h throw_ne_ok
    · rename_i usr hlookup
      split at h
      · exact absurd h throw_ne_ok
      · rename_i b
        split at h
        · exact absurd h throw_ne_ok
        · rename_i s hserver
          exact ⟨usr, b, s, hlookup, rfl, hserver, (pure_eq_ok.mp h).symm⟩
  · rintro ⟨usr, b, s, hlookup, rfl, hserver, rfl⟩
    simp only [hlookup, hserver]
    rfl

/-- Without a public value there is no verificator. -/
theorem getVerificator_nil_ne_ok (math : OsslMathImpl) (lookup : LookupInterface)
    (random : Except DsrpException Bytes) (interleave : Bool) (username : Bytes)
    (ver : SrpVerificator) :
    getVerificator math lookup random interleave username [] ≠ .ok ver := by
  intro h
  obtain ⟨usr, b, s, -, -, hserver, -⟩ := getVerificator_eq_ok.mp h
  exact (OsslMathImpl.serverChallange_eq_ok hserver).1 rfl

/-- With interleaving the session key of a verificator has the length of two digests, and
its message the length of one. -/
theorem length_getVerificator {math : OsslMathImpl} {lookup : LookupInterface}
    {random : Except DsrpException Bytes} {username AA : Bytes} {ver : SrpVerificator}
    (h : getVerificator math lookup random true username AA = .ok ver) :
    ver.KK.length = 2 * math.hash.outputLen ∧ ver.calc_M2.length = math.hash.outputLen := by
  obtain ⟨usr, b, s, -, -, hserver, rfl⟩ := getVerificator_eq_ok.mp h
  obtain ⟨-, -, -, hproofs⟩ := OsslMathImpl.serverChallange_eq_ok hserver
  exact OsslMathImpl.length_proofs hproofs

/-- The members of an `SrpClientAuthenticator`. -/
structure SrpClientAuthenticator where
  username : Bytes
  password : Bytes
  a : Bytes
  A : Bytes
  M2_calculated : Bytes := []
  K : Bytes := []
  deriving DecidableEq, Repr

/-- `SrpClientAuthenticator::getSessionKey` -/
def SrpClientAuthenticator.getSessionKey (sca : SrpClientAuthenticator) (M2_from_server : Bytes) :
    Except DsrpException Bytes :=
  if M2_from_server.length = 0 then
    throw ⟨"SrpClientAuthenticator::getSessionKey: M2_from_server.size() == 0"⟩
  else if sca.M2_calculated.length = 0 then
    throw ⟨"SrpClientAuthenticator::getSessionKey: M2_calculated.size() == 0"⟩
  else if M2_from_server ≠ sca.M2_calculated then
    throw ⟨"Authentification failed, bad password"⟩
  else return sca.K

/-- The calculated message, if it is not empty, releases the session key. -/
theorem SrpClientAuthenticator.getSessionKey_self {sca : SrpClientAuthenticator}
    (h : sca.M2_calculated ≠ []) : sca.getSessionKey sca.M2_calculated = .ok sca.K := by
  simp [getSessionKey, h]

/-- What is released is the key of the authenticator. -/
theorem SrpClientAuthenticator.getSessionKey_eq_ok {sca : SrpClientAuthenticator} {M2 K : Bytes}
    (h : sca.getSessionKey M2 = .ok K) : K = sca.K := by
  unfold getSessionKey at h
  obtain ⟨-, h⟩ := ite_throw_eq_ok.mp h
  obtain ⟨-, h⟩ := ite_throw_eq_ok.mp h
  obtain ⟨-, h⟩ := ite_throw_eq_ok.mp h
  exact (pure_eq_ok.mp h).symm

/-- `SrpClient::getAuthenticator` -/
def getAuthenticator (math : OsslMathImpl) (random : Except DsrpException Bytes)
    (username password : Bytes) : Except DsrpException SrpClientAuthenticator := do
  let a ← random
  let A ← math.calculateA a
  return { username := username, password := password, a := a, A := A }

/-- `SrpClient::getM1` returns `M1` and keeps `M2` and `K` in the authenticator. -/
def getM1 (math : OsslMathImpl) (interleave : Bool) (salt B : Bytes)
    (sca : SrpClientAuthenticator) : Except DsrpException (Bytes × SrpClientAuthenticator) := do
  let c ← math.clientChallange salt sca.a sca.A B sca.username sca.password interleave
  return (c.M1_out, { sca with M2_calculated := c.M2_out, K := c.K_out })

/-- With interleaving the key that the authenticator keeps has the length of two digests. -/
theorem length_getM1_K {math : OsslMathImpl} {salt B M1 : Bytes}
    {sca sca' : SrpClientAuthenticator} (h : getM1 math true salt B sca = .ok (M1, sca')) :
    sca'.K.length = 2 * math.hash.outputLen := by
  obtain ⟨c, hc, h⟩ := bind_eq_ok.mp h
  obtain ⟨-, hproofs⟩ := OsslMathImpl.clientChallange_eq_ok hc
  cases pure_eq_ok.mp h
  exact (OsslMathImpl.length_proofs hproofs).1

/-- Both ends hold the same messages and the same key, and accept each other's proof. -/
structure LoginAgrees (server : ServerChallange) (client : Challange)
    (sca : SrpClientAuthenticator) (salt : Bytes) : Prop where
  M1_eq : client.M1_out = server.M1_out
  M2_eq : client.M2_out = server.M2_out
  K_eq : client.K_out = server.K_out
  /-- `SrpVerificator::authenticate` accepts the client's `M1`. -/
  authenticate : (server.verificator sca.username salt).authenticate client.M1_out =
    .ok (server.M2_out, server.K_out)
  /-- `SrpClientAuthenticator::getSessionKey` accepts the server's `M2`. -/
  getSessionKey : ({ sca with M2_calculated := client.M2_out, K := client.K_out } :
    SrpClientAuthenticator).getSessionKey server.M2_out = .ok server.K_out

/-- The ends agree as soon as they have come to the same proof. -/
theorem loginAgrees_iff {server : ServerChallange} {client : Challange}
    {sca : SrpClientAuthenticator} {salt : Bytes} (hM1 : server.M1_out ≠ [])
    (hM2 : server.M2_out ≠ []) :
    LoginAgrees server client sca salt ↔ client = server.toChallange := by
  constructor
  · rintro ⟨hM1, hM2, hK, -, -⟩
    cases client
    simp_all
  · rintro rfl
    refine ⟨rfl, rfl, rfl, ?_, ?_⟩
    · exact SrpVerificator.authenticate_eq_ok.mpr ⟨rfl, hM1, rfl, rfl⟩
    · exact SrpClientAuthenticator.getSessionKey_self hM2

section Login

variable {math : OsslMathImpl} {username password salt aa bb verificator AA : Bytes}
  {interleave : Bool} {server : ServerChallange} {client : Challange}

/-- Two challenges that do not throw agree exactly when the exponents of the two ends
select powers of `g^b` with the same session key. -/
theorem login_agrees_iff_key
    (hv : math.calculateVerificator username password salt = .ok verificator)
    (hA : math.calculateA aa = .ok AA)
    (hserver : math.serverChallange username salt verificator AA bb interleave = .ok server)
    (hclient : math.clientChallange salt aa AA server.B_out username password interleave =
      .ok client) :
    LoginAgrees server client { username, password, a := aa, A := AA } salt ↔
      math.calculateK interleave (math.sharedSecret (bytes2bignum bb)
          (math.clientExponent (bytes2bignum aa)
            (math.calculateU (math.clientCu AA server.B_out))
            (math.calculateX username password salt))) =
        math.calculateK interleave (math.sharedSecret (bytes2bignum bb)
          (bytes2bignum aa + math.calculateU (math.serverCu AA server.B_out) *
            math.calculateX username password salt)) := by
  obtain ⟨hN, rfl⟩ := OsslMathImpl.calculateA_eq_ok hA
  obtain rfl := OsslMathImpl.calculateVerificator_eq_ok hv
  obtain ⟨-, -, hB, hproofs⟩ := OsslMathImpl.serverChallange_eq_ok hserver
  obtain ⟨-, hproofs'⟩ := OsslMathImpl.clientChallange_eq_ok hclient
  have hne := OsslMathImpl.proofs_ne_nil hproofs
  rw [loginAgrees_iff hne.1 hne.2, OsslMathImpl.proofs_eq_iff hproofs' hproofs]
  rw [bytes2bignum_bignum2bytes, bytes2bignum_bignum2bytes, OsslMathImpl.serverS_eq hN]
  have hclientS := OsslMathImpl.clientS_eq hN (bytes2bignum aa) (bytes2bignum bb)
    (math.calculateU (math.clientCu (bignum2bytes (bnModExp math.g (bytes2bignum aa) math.N))
      server.B_out)) (math.calculateX username password salt)
  rw [← hclientS, hB]
  simp only [bytes2bignum_bignum2bytes]

/-- A login whose client value is as long as `N`, and whose exponent stays below `N`,
ends in agreement, whatever the length of the server's value. The two ends of any login
agree exactly when their exponents of `g^b` select the same session key. -/
theorem login_agrees
    (hv : math.calculateVerificator username password salt = .ok verificator)
    (hA : math.calculateA aa = .ok AA)
    (hserver : math.serverChallange username salt verificator AA bb interleave = .ok server)
    (hclient : math.clientChallange salt aa AA server.B_out username password interleave =
      .ok client) :
    (AA.length = byteLength math.N ∧
        bytes2bignum aa + math.calculateU (math.serverCu AA server.B_out) *
          math.calculateX username password salt < math.N →
      LoginAgrees server client { username, password, a := aa, A := AA } salt) ∧
    (LoginAgrees server client { username, password, a := aa, A := AA } salt ↔
      math.calculateK interleave (math.sharedSecret (bytes2bignum bb)
          (math.clientExponent (bytes2bignum aa)
            (math.calculateU (math.clientCu AA server.B_out))
            (math.calculateX username password salt))) =
        math.calculateK interleave (math.sharedSecret (bytes2bignum bb)
          (bytes2bignum aa + math.calculateU (math.serverCu AA server.B_out) *
            math.calculateX username password salt))) := by
  have hkey := login_agrees_iff_key hv hA hserver hclient
  constructor
  · rintro ⟨hlen, hexponent⟩
    rw [hkey, OsslMathImpl.clientCu_of_le server.B_out (le_of_eq hlen.symm),
      OsslMathImpl.clientExponent_of_lt hexponent]
  · exact hkey

end Login

/-- A toy hash function of one byte. -/
def sumHash : HashInterface :=
  ⟨1, 1, fun data =>
    ⟨[UInt8.ofNat (data.foldl (fun acc b => (3 * acc + b.toNat + 1) % 13) 0)], rfl⟩⟩

/-- The group generated by 3 modulo 257. -/
def smallMath : OsslMathImpl := ⟨sumHash, 257, 3, 1⟩

/-- A login over the small group with a full client value and a short server value. -/
theorem login_agrees_small :
    smallMath.calculateVerificator [117] [112] [115] = .ok [74] ∧
    smallMath.calculateA [128] = .ok [1, 0] ∧
    smallMath.serverChallange [117] [115] [74] [1, 0] [1] false =
      .ok ⟨⟨[3], [0], [2]⟩, [77]⟩ ∧
    smallMath.clientChallange [115] [128] [1, 0] [77] [117] [112] false = .ok ⟨[3], [0], [2]⟩ ∧
    LoginAgrees ⟨⟨[3], [0], [2]⟩, [77]⟩ ⟨[3], [0], [2]⟩
      { username := [117], password := [112], a := [128], A := [1, 0] } [115] := by
  have hv : smallMath.calculateVerificator [117] [112] [115] = .ok [74] := by decide +kernel
  have hA : smallMath.calculateA [128] = .ok [1, 0] := by decide +kernel
  have hserver : smallMath.serverChallange [117] [115] [74] [1, 0] [1] false =
      .ok ⟨⟨[3], [0], [2]⟩, [77]⟩ := by decide +kernel
  have hclient : smallMath.clientChallange [115] [128] [1, 0] [77] [117] [112] false =
      .ok ⟨[3], [0], [2]⟩ := by decide +kernel
  exact ⟨hv, hA, hserver, hclient,
    (login_agrees hv hA hserver hclient).1 (by decide +kernel)⟩

/-- The ephemeral secret 1 gives the client value 3, one byte shorter than the modulus.
The exponents stay below `N` and nothing throws, but the two ends hash different strings
to `u` and disagree on both messages and on the key. -/
theorem login_disagrees_short_A :
    OsslMathImpl.create sumHash ⟨[1, 1], [3]⟩ = some smallMath ∧
    smallMath.calculateVerificator [117] [112] [115] = .ok [74] ∧
    smallMath.calculateA [1] = .ok [3] ∧
    smallMath.serverChallange [117] [115] [74] [3] [1] false = .ok ⟨⟨[1], [2], [11]⟩, [77]⟩ ∧
    smallMath.clientChallange [115] [1] [3] [77] [117] [112] false = .ok ⟨[5], [5], [2]⟩ ∧
    1 + smallMath.calculateU (smallMath.serverCu [3] [77]) *
      smallMath.calculateX [117] [112] [115] < smallMath.N ∧
    ¬ LoginAgrees ⟨⟨[1], [2], [11]⟩, [77]⟩ ⟨[5], [5], [2]⟩
      { username := [117], password := [112], a := [1], A := [3] } [115] := by
  refine ⟨?_, by decide +kernel, by decide +kernel, by decide +kernel, by decide +kernel,
    by decide +kernel, ?_⟩
  · simp only [OsslMathImpl.create, smallMath, Option.ite_none_left_eq_some, Option.some.injEq,
      OsslMathImpl.mk.injEq, true_and]
    decide +kernel
  · rintro ⟨hM1, -, -, -, -⟩
    exact absurd hM1 (by decide)

end San2.DragonSRP
