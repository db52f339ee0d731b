import San2.Crypto.SrpAuthentication

/-!
# The challenges of both ends

The two challenges hash a string of `A` and `B` to `u`, raise the other end's value to a
secret exponent and refuse values that would give the secret away. The string should hold
both values padded to the length of `N`, the two secrets should be equal, and the check
should not depend on how a value is encoded.
-/

namespace San2.DragonSRP

open BigEndian OsslConversion

/-- A value with zeros in front of it up to a length. -/
def pad (length : ℕ) (parameter : Bytes) : Bytes :=
  List.replicate (length - parameter.length) 0 ++ parameter

/-- Padded, a parameter has the length of the modulus. -/
theorem length_pad {length : ℕ} {parameter : Bytes} (h : parameter.length ≤ length) :
    (pad length parameter).length = length := by
  rw [pad, List.length_append, List.length_replicate]
  omega

/-- A parameter of full length is not padded. -/
theorem pad_of_length_eq {length : ℕ} {parameter : Bytes} (h : parameter.length = length) :
    pad length parameter = parameter := by
  rw [pad, h, Nat.sub_self, List.replicate_zero, List.nil_append]

/-- Zeros in front do not change the number. -/
@[simp] theorem value_pad (length : ℕ) (parameter : Bytes) :
    value (pad length parameter) = value parameter := value_replicate_zero_append _ _

/-- Two padded values determine both numbers. -/
theorem pad_append_inj {length : ℕ} {AA AA' BB BB' : Bytes} (hA : AA.length ≤ length)
    (hA' : AA'.length ≤ length)
    (h : pad length AA ++ pad length BB = pad length AA' ++ pad length BB') :
    value AA = value AA' ∧ value BB = value BB' := by
  have hparts := List.append_inj h ((length_pad hA).trans (length_pad hA').symm)
  constructor
  · rw [← value_pad length AA, hparts.1, value_pad]
  · rw [← value_pad length BB, hparts.2, value_pad]

/-- The first value is padded to an empty vector, as it should be. -/
theorem padParameter_nil (len_N : ℕ) (parameter : Bytes) :
    padParameter len_N [] parameter = List.replicate (len_N - parameter.length) 0 := by
  unfold padParameter
  split_ifs with hlt
  · obtain ⟨missing, hmissing⟩ : ∃ n, len_N - parameter.length = n + 1 :=
      ⟨len_N - parameter.length - 1, by omega⟩
    rw [hmissing, resize, List.nil_append, List.take_of_length_le (by simp), List.length_singleton,
      Nat.add_sub_cancel, List.singleton_append, List.replicate_succ]
  · have hzero : len_N - parameter.length = 0 := by omega
    rw [hzero, List.replicate_zero]

/-- Behind a full first value a shorter second one cuts the vector off. -/
theorem padParameter_full {len_N : ℕ} {cu : Bytes} (parameter : Bytes)
    (hcu : cu.length = len_N) :
    padParameter len_N cu parameter =
      if parameter.length < len_N then cu.take (len_N - parameter.length) else cu := by
  unfold padParameter
  split_ifs with hlt
  · have hle : len_N - parameter.length ≤ (cu ++ [0]).length := by
      rw [List.length_append]
      omega
    rw [resize_of_le hle, List.take_append_of_le_length (by omega)]
  · rfl

namespace OsslMathImpl

variable {math : OsslMathImpl} {AA BB : Bytes}

/-- What the server hashes for `u`, for a first parameter that is not too long. -/
theorem serverCu_eq (BB : Bytes) (hA : AA.length ≤ byteLength math.N) :
    math.serverCu AA BB =
      (if BB.length < byteLength math.N then
        (pad (byteLength math.N) AA).take (byteLength math.N - BB.length)
      else pad (byteLength math.N) AA) ++ BB := by
  simp only [serverCu, padParameter_nil]
  exact congrArg (· ++ BB) (padParameter_full BB (length_pad hA))

/-- What the client hashes for `u`, for a first parameter that is not too long. -/
theorem clientCu_eq (BB : Bytes) (hA : AA.length ≤ byteLength math.N) :
    math.clientCu AA BB =
      (if BB.length < byteLength math.N then
        (AA ++ List.replicate (byteLength math.N - AA.length) 0).take
          (byteLength math.N - BB.length)
      else AA ++ List.replicate (byteLength math.N - AA.length) 0) ++ BB := by
  have hlength : (AA ++ List.replicate (byteLength math.N - AA.length) (0 : UInt8)).length =
      byteLength math.N := by
    rw [List.length_append, List.length_replicate]
    omega
  simp only [clientCu, padParameter_nil]
  exact congrArg (· ++ BB) (padParameter_full BB hlength)

/-- Of a full `A` the server hashes only as many bytes as a shorter `B` lacks. -/
theorem serverCu_eq_of_prefix {AA' : Bytes} (hA : AA.length = byteLength math.N)
    (hA' : AA'.length = byteLength math.N) (hB : BB.length < byteLength math.N)
    (h : AA.take (byteLength math.N - BB.length) = AA'.take (byteLength math.N - BB.length)) :
    math.serverCu AA BB = math.serverCu AA' BB := by
  rw [serverCu_eq BB hA.le, serverCu_eq BB hA'.le, if_pos hB, if_pos hB,
    pad_of_length_eq hA, pad_of_length_eq hA', h]

/-- Zeros can change places with a value of nothing but zeros only. -/
theorem eq_zero_of_append_replicate {missing : ℕ} (hmissing : missing ≠ 0) {parameter : Bytes}
    (h : parameter ++ List.replicate missing 0 = List.replicate missing 0 ++ parameter) :
    ∀ byte ∈ parameter, byte = 0 := by
  obtain ⟨fewer, rfl⟩ : ∃ n, missing = n + 1 := Nat.exists_eq_succ_of_ne_zero hmissing
  induction parameter with
  | nil => simp
  | cons first parameter ih =>
    rw [List.replicate_succ, List.cons_append, List.cons_append] at h
    obtain ⟨hfirst, hrest⟩ := List.cons.inj h
    have hshift : List.replicate fewer (0 : UInt8) ++ 0 :: parameter =
        0 :: List.replicate fewer 0 ++ parameter := by
      rw [List.append_cons, ← List.replicate_succ', List.replicate_succ]
    rw [hfirst, hshift, ← List.replicate_succ] at hrest
    intro byte hbyte
    rcases List.mem_cons.mp hbyte with rfl | hbyte
    · exact hfirst
    · exact ih hrest byte hbyte

/-- Both ends hash the padded values exactly if `B` needs no padding, and `A` none that
could be put in the wrong place. -/
theorem cu_eq_pad_iff (hA : AA.length ≤ byteLength math.N) (hB : BB.length ≤ byteLength math.N) :
    (math.serverCu AA BB = pad (byteLength math.N) AA ++ pad (byteLength math.N) BB ∧
        math.clientCu AA BB = pad (byteLength math.N) AA ++ pad (byteLength math.N) BB) ↔
      BB.length = byteLength math.N ∧
        (AA.length = byteLength math.N ∨ ∀ byte ∈ AA, byte = 0) := by
  rw [serverCu_eq BB hA, clientCu_eq BB hA]
  constructor
  · rintro ⟨hserver, hclient⟩
    have hfull : BB.length = byteLength math.N := by
      by_contra hshort
      have hlength := congrArg List.length hserver
      rw [if_pos (by omega), List.length_append, List.length_take, List.length_append,
        length_pad hA, length_pad hB] at hlength
      omega
    refine ⟨hfull, ?_⟩
    rw [if_neg (by omega), pad_of_length_eq hfull] at hclient
    by_cases hmissing : byteLength math.N - AA.length = 0
    · exact Or.inl (by omega)
    · exact Or.inr (eq_zero_of_append_replicate hmissing (List.append_cancel_right hclient))
  · rintro ⟨hfull, hplace⟩
    rw [if_neg (by omega), if_neg (by omega), pad_of_length_eq hfull]
    refine ⟨rfl, congrArg (· ++ BB) ?_⟩
    rcases hplace with hlength | hzero
    · rw [pad_of_length_eq hlength, hlength, Nat.sub_self, List.replicate_zero, List.append_nil]
    · rw [pad, List.eq_replicate_of_mem hzero, List.length_replicate,
        List.replicate_append_replicate, List.replicate_append_replicate, Nat.add_comm]

/-- Values as long as a modulus of two bytes, which are hashed as they are. -/
theorem cu_eq_pad_full :
    smallMath.serverCu [1, 0] [0, 77] = pad 2 [1, 0] ++ pad 2 [0, 77] ∧
      smallMath.clientCu [1, 0] [0, 77] = pad 2 [1, 0] ++ pad 2 [0, 77] := by
  have hN : byteLength smallMath.N = 2 := by decide +kernel
  have hiff := @cu_eq_pad_iff smallMath [1, 0] [0, 77] (by rw [hN]; decide) (by rw [hN]; decide)
  rw [hN] at hiff
  exact hiff.mpr (by decide)

/-- With a server value of one byte under a modulus of two, the last byte of `A` is cut off
on both ends. -/
theorem cu_ne_pad_short_B :
    smallMath.serverCu [1, 0] [77] = [1, 77] ∧ smallMath.clientCu [1, 0] [77] = [1, 77] ∧
      [1, 77] ≠ pad (byteLength smallMath.N) [1, 0] ++ pad (byteLength smallMath.N) [77] := by
  decide +kernel

/-- As long as the client's exponent stays below `N`, both ends compute the same secret from
the public values of the other end, also where the client's difference is negative. -/
theorem premaster_secrets_agree (hN : 0 < math.N) :
    (∀ a u x b, a + u * x < math.N →
      math.clientS a (math.serverB (bnModExp math.g x math.N) b) u x =
        math.serverS (bnModExp math.g a math.N) (bnModExp math.g x math.N) u b) ∧
    ∀ username password salt aa bb interleave verificator AA server,
      math.calculateVerificator username password salt = .ok verificator →
      math.calculateA aa = .ok AA →
      math.serverChallange username salt verificator AA bb interleave = .ok server →
      ∀ u, bytes2bignum aa + u * math.calculateX username password salt < math.N →
        math.clientS (bytes2bignum aa) (bytes2bignum server.B_out) u
            (math.calculateX username password salt) =
          math.serverS (bytes2bignum AA) (bytes2bignum verificator) u (bytes2bignum bb) := by
  have hsecrets : ∀ a u x b, a + u * x < math.N →
      math.clientS a (math.serverB (bnModExp math.g x math.N) b) u x =
        math.serverS (bnModExp math.g a math.N) (bnModExp math.g x math.N) u b := by
    intro a u x b hexponent
    rw [clientS_eq hN.ne', serverS_eq hN.ne', clientExponent_of_lt hexponent]
  refine ⟨hsecrets, ?_⟩
  intro username password salt aa bb interleave verificator AA server hv hA hserver u hexponent
  obtain ⟨-, rfl⟩ := calculateA_eq_ok hA
  obtain rfl := calculateVerificator_eq_ok hv
  obtain ⟨-, -, hB, -⟩ := serverChallange_eq_ok hserver
  rw [hB]
  simp only [bytes2bignum_bignum2bytes]
  exact hsecrets _ u _ _ hexponent

/-- In the small group with exponents below 257, where 77 - 74 is what is left of `B`. -/
theorem premaster_secrets_agree_small :
    smallMath.clientS 1 (smallMath.serverB (bnModExp smallMath.g 3 smallMath.N) 1) 2 3 =
        smallMath.serverS (bnModExp smallMath.g 1 smallMath.N)
          (bnModExp smallMath.g 3 smallMath.N) 2 1 ∧
      smallMath.clientS 128 77 2 (smallMath.calculateX [117] [112] [115]) =
        smallMath.serverS 256 74 2 1 := by
  have hN : 0 < smallMath.N := by decide
  have hv : smallMath.calculateVerificator [117] [112] [115] = .ok [74] := by decide +kernel
  have hA : smallMath.calculateA [128] = .ok [1, 0] := by decide +kernel
  have hserver : smallMath.serverChallange [117] [115] [74] [1, 0] [1] false =
      .ok ⟨⟨[3], [0], [2]⟩, [77]⟩ := by decide +kernel
  have hexponent : bytes2bignum [128] + 2 * smallMath.calculateX [117] [112] [115] <
      smallMath.N := by decide +kernel
  refine ⟨(premaster_secrets_agree hN).1 1 2 3 1 (by decide), ?_⟩
  exact (premaster_secrets_agree hN).2 [117] [112] [115] [128] [1] false [74] [1, 0] _ hv hA
    hserver 2 hexponent

/-- A parameter that is not empty passes the check. -/
theorem checkParameter_ok {function name : String} {parameter : Bytes} (h : parameter ≠ []) :
    checkParameter function name parameter = .ok () := checkParameter_eq_ok.mpr h

/-- The server refuses every `A` that is a multiple of `N`. -/
theorem serverChallange_error (username salt verificator bb : Bytes) (interleave : Bool)
    (hA : bytes2bignum AA % math.N = 0) :
    ∃ e, math.serverChallange username salt verificator AA bb interleave = .error e := by
  cases h : math.serverChallange username salt verificator AA bb interleave with
  | error e => exact ⟨e, rfl⟩
  | ok server => exact absurd hA (serverChallange_eq_ok h).2.1

/-- What `clientChallange` is called with. -/
structure ClientInput where
  salt : Bytes
  aa : Bytes
  AA : Bytes
  BB : Bytes
  username : Bytes
  password : Bytes
  interleave : Bool

namespace ClientInput

variable (math) (input : ClientInput)

/-- The call of `clientChallange`. -/
def challange : Except DsrpException Challange :=
  math.clientChallange input.salt input.aa input.AA input.BB input.username input.password
    input.interleave

/-- The scrambling parameter. -/
def u : ℕ := math.calculateU (math.clientCu input.AA input.BB)

/-- The private number of the client. -/
def x : ℕ := math.calculateX input.username input.password input.salt

/-- The checks that have nothing to do with the value of `B`. -/
structure Given : Prop where
  salt : input.salt ≠ []
  aa : input.aa ≠ []
  AA : input.AA ≠ []
  BB : input.BB ≠ []
  username : input.username ≠ []
  password : input.password ≠ []
  group : math.N ≠ 0 ∧ math.g ≠ 0 ∧ math.k ≠ 0

/-- The secret of a client whose `B` is a multiple of `N`. -/
def zeroSecret : ℕ :=
  bnModExp (-(bnModMul math.k (bnModExp math.g (input.x math) math.N) math.N : ℕ) : ℤ)
    (math.clientExponent (bytes2bignum input.aa) (input.u math) (input.x math)) math.N

end ClientInput

/-- A multiple of `N` leaves no trace in the secret. -/
theorem clientS_of_dvd {B : ℕ} (hN : math.N ≠ 0) (hB : B % math.N = 0) (a u x : ℕ) :
    math.clientS a B u x =
      bnModExp (-(bnModMul math.k (bnModExp math.g x math.N) math.N : ℕ) : ℤ)
        (math.clientExponent a u x) math.N := by
  have : NeZero math.N := ⟨hN⟩
  have hzero : ((B : ℕ) : ZMod math.N) = 0 :=
    (ZMod.natCast_eq_zero_iff _ _).mpr (Nat.dvd_of_mod_eq_zero hB)
  unfold clientS
  rw [bnModExp_eq_iff]
  simp only [Int.cast_sub, Int.cast_natCast, Int.cast_neg, hzero, zero_sub]

/-- If N divides B, the secret is the one of a zero public key. -/
theorem ClientInput.clientS_eq_zeroSecret (input : ClientInput) (hN : math.N ≠ 0)
    (hB : bytes2bignum input.BB % math.N = 0) :
    math.clientS (bytes2bignum input.aa) (bytes2bignum input.BB) (input.u math) (input.x math) =
      input.zeroSecret math := clientS_of_dvd hN hB _ _ _

/-- The interleaved key is refused for a secret of less than two bytes. -/
theorem interleaveS_ok_iff (S : ℕ) :
    (∃ K, math.interleaveS (bignum2bytes S) = .ok K) ↔ 256 ≤ S := by
  have hlength : byteLength S ≤ 1 ↔ S < 256 := byteLength_le_iff
  by_cases hzero : S = 0
  · have hempty : bignum2bytes S = [] := by
      rw [hzero]
      rfl
    rw [hempty, hzero]
    refine iff_of_false ?_ (by decide)
    rintro ⟨K, h⟩
    obtain ⟨_, hchecked, -⟩ := bind_eq_ok.mp h
    exact checkParameter_eq_ok.mp hchecked rfl
  obtain ⟨first, rest, hbytes, hfirst⟩ := minimal_head_ne_zero hzero
  have hminimal : bignum2bytes S = first :: rest := hbytes
  have hrest : byteLength S = rest.length + 1 := by
    rw [← length_bignum2bytes, hminimal, List.length_cons]
  have hskipped : (first :: rest).dropWhile (· = 0) = first :: rest :=
    List.dropWhile_cons_of_neg (by simpa using hfirst)
  rw [hminimal, interleaveS, checkParameter_ok (List.cons_ne_nil _ _), hskipped]
  have hleft : (if (first :: rest).length % 2 = 1 then (first :: rest).drop 1
      else first :: rest).length = 0 ↔ rest.length = 0 := by
    have hlong : (first :: rest).length = rest.length + 1 := List.length_cons
    by_cases hodd : (first :: rest).length % 2 = 1
    · rw [if_pos hodd, List.drop_one, List.tail_cons]
    · rw [if_neg hodd]
      omega
  by_cases hsingle : rest.length = 0
  · refine iff_of_false ?_ (by omega)
    rintro ⟨K, h⟩
    obtain ⟨_, -, h⟩ := bind_eq_ok.mp h
    exact (ite_throw_eq_ok.mp h).1 (hleft.mpr hsingle)
  · refine iff_of_true ?_ (by omega)
    exact ⟨math.interleaveHalves _ _, ite_throw_eq_ok.mpr ⟨mt hleft.mp hsingle, rfl⟩⟩

/-- The session key is made of every secret that is long enough to be interleaved. -/
theorem calculateK_ok_iff (interleave : Bool) (S : ℕ) :
    (∃ K, math.calculateK interleave S = .ok K) ↔ (interleave = true → 256 ≤ S) := by
  cases interleave with
  | false => exact iff_of_true ⟨_, rfl⟩ fun h => Bool.noConfusion h
  | true =>
    simp only [forall_const]
    exact interleaveS_ok_iff S

/-- Without hash output `u` is zero. -/
theorem outputLen_ne_zero_of_calculateU {cu : Bytes} (h : math.calculateU cu ≠ 0) :
    math.hash.outputLen ≠ 0 := by
  intro hzero
  apply h
  have hempty : math.hash.digest cu = [] := by
    rw [← List.length_eq_zero_iff, HashInterface.length_digest, hzero]
  rw [calculateU, hempty]
  rfl

/-- A key that is derived from a digest is never empty. -/
theorem calculateK_ne_nil {interleave : Bool} {S : ℕ} {K : Bytes} (hlen : math.hash.outputLen ≠ 0)
    (h : math.calculateK interleave S = .ok K) : K ≠ [] := by
  have hlength : K.length = math.hash.outputLen ∨ K.length = 2 * math.hash.outputLen := by
    cases interleave with
    | false =>
      rw [← pure_eq_ok.mp h]
      exact Or.inl (HashInterface.length_digest _ _)
    | true => exact Or.inr (length_calculateK h)
  intro hnil
  rw [hnil, List.length_nil] at hlength
  omega

/-- The first message is computed of values that are not empty. -/
theorem calculateM1_ok (math : OsslMathImpl) {username salt AA BB K : Bytes}
    (husername : username ≠ []) (hsalt : salt ≠ []) (hAA : AA ≠ []) (hBB : BB ≠ [])
    (hK : K ≠ []) : ∃ M1, math.calculateM1 username salt AA BB K = .ok M1 := by
  unfold calculateM1
  rw [checkParameter_ok husername, checkParameter_ok hsalt, checkParameter_ok hAA,
    checkParameter_ok hBB, checkParameter_ok hK]
  exact ⟨_, rfl⟩

/-- The client computes its proofs exactly if nothing is missing, `B` and `u` are not the
number zero, and the secret is large enough to be interleaved. -/
theorem ClientInput.challange_ok_iff (input : ClientInput) :
    (∃ c, input.challange math = .ok c) ↔
      input.Given math ∧ bytes2bignum input.BB ≠ 0 ∧ input.u math ≠ 0 ∧
        (input.interleave = true →
          256 ≤ math.clientS (bytes2bignum input.aa) (bytes2bignum input.BB) (input.u math)
            (input.x math)) := by
  unfold ClientInput.challange clientChallange
  constructor
  · rintro ⟨c, h⟩
    obtain ⟨_, hsalt, h⟩ := bind_eq_ok.mp h
    obtain ⟨_, haa, h⟩ := bind_eq_ok.mp h
    obtain ⟨_, hAA, h⟩ := bind_eq_ok.mp h
    obtain ⟨_, hBB, h⟩ := bind_eq_ok.mp h
    obtain ⟨_, husername, h⟩ := bind_eq_ok.mp h
    obtain ⟨_, hpassword, h⟩ := bind_eq_ok.mp h
    obtain ⟨_, hgroup, h⟩ := bind_eq_ok.mp h
    have hgiven : input.Given math := {
      salt := checkParameter_eq_ok.mp hsalt
      aa := checkParameter_eq_ok.mp haa
      AA := checkParameter_eq_ok.mp hAA
      BB := checkParameter_eq_ok.mp hBB
      username := checkParameter_eq_ok.mp husername
      password := checkParameter_eq_ok.mp hpassword
      group := checkNg_eq_ok.mp hgroup }
    dsimp only at h
    split_ifs at h with hsafe
    obtain ⟨K, hK, -⟩ := bind_eq_ok.mp h
    exact ⟨hgiven, hsafe.1, hsafe.2, (calculateK_ok_iff _ _).mp ⟨K, hK⟩⟩
  · rintro ⟨hgiven, hB, hu, hsecret⟩
    obtain ⟨K, hK⟩ := (calculateK_ok_iff _ _).mpr hsecret
    have hKne := calculateK_ne_nil (outputLen_ne_zero_of_calculateU hu) hK
    obtain ⟨M1, hM1⟩ := calculateM1_ok math hgiven.username hgiven.salt hgiven.AA hgiven.BB hKne
    have hgroup : math.checkNg = .ok () := checkNg_eq_ok.mpr hgiven.group
    refine ⟨⟨M1, math.calculateM2 input.AA M1 K, K⟩, ?_⟩
    rw [checkParameter_ok hgiven.salt, checkParameter_ok hgiven.aa, checkParameter_ok hgiven.AA,
      checkParameter_ok hgiven.BB, checkParameter_ok hgiven.username,
      checkParameter_ok hgiven.password, hgroup]
    have hsafe : bytes2bignum input.BB ≠ 0 ∧
        math.calculateU (math.clientCu input.AA input.BB) ≠ 0 := ⟨hB, hu⟩
    refine (if_pos hsafe).trans ?_
    exact bind_eq_ok.mpr ⟨K, hK, bind_eq_ok.mpr ⟨M1, hM1, rfl⟩⟩

/-- The client goes on although `B` is a multiple of `N`: nothing is missing, `B` is not the
number zero itself, and the secret, which does not depend on `B` then, can be used. -/
structure AcceptsMultiple (math : OsslMathImpl) (input : ClientInput) : Prop where
  given : input.Given math
  multiple : bytes2bignum input.BB % math.N = 0
  nonzero : bytes2bignum input.BB ≠ 0
  u_ne_zero : input.u math ≠ 0
  secret : input.interleave = true → 256 ≤ input.zeroSecret math

/-- The server refuses every multiple of `N`. The client refuses `u = 0` and the number zero,
but not the other multiples. -/
theorem safety_checks_iff (math : OsslMathImpl) (input : ClientInput) :
    (∀ username salt verificator AA bb interleave, bytes2bignum AA % math.N = 0 →
      ∃ e, math.serverChallange username salt verificator AA bb interleave = .error e) ∧
    ((bytes2bignum input.BB % math.N = 0 ∨ input.u math = 0 →
      ∃ e, input.challange math = .error e) ↔ ¬AcceptsMultiple math input) := by
  refine ⟨fun username salt verificator AA bb interleave hA =>
    serverChallange_error username salt verificator bb interleave hA, ?_⟩
  constructor
  · rintro hchecked ⟨hgiven, hmultiple, hnonzero, hu, hsecret⟩
    obtain ⟨e, herror⟩ := hchecked (Or.inl hmultiple)
    have hS := ClientInput.clientS_eq_zeroSecret input hgiven.group.1 hmultiple
    obtain ⟨c, hok⟩ := (ClientInput.challange_ok_iff input).mpr
      ⟨hgiven, hnonzero, hu, fun hinterleave => hS ▸ hsecret hinterleave⟩
    rw [hok] at herror
    cases herror
  · intro haccepts hrefused
    cases hcall : input.challange math with
    | error e => exact ⟨e, rfl⟩
    | ok c =>
      obtain ⟨hgiven, hnonzero, hu, hsecret⟩ := (ClientInput.challange_ok_iff input).mp ⟨c, hcall⟩
      have hmultiple := hrefused.resolve_right hu
      have hS := ClientInput.clientS_eq_zeroSecret input hgiven.group.1 hmultiple
      exact absurd ⟨hgiven, hmultiple, hnonzero, hu, fun hinterleave => hS ▸ hsecret hinterleave⟩
        haccepts

/-- The bytes of `N` itself stand for a public value that is zero modulo `N`, and the client
of the small group computes its proofs for it. -/
theorem client_accepts_modulus :
    bytes2bignum [1, 1] % smallMath.N = 0 ∧
      smallMath.clientChallange [115] [128] [1, 0] [1, 1] [117] [112] false =
        .ok ⟨[8], [9], [9]⟩ := by
  decide +kernel

end OsslMathImpl

end San2.DragonSRP
