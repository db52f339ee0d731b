import San2.Crypto.HashInterface
import San2.Library.PasswordKeyExchange
import Mathlib.Data.ZMod.Basic

/-!
# The SRP-6a computations

`OsslMathImpl` computes both sides of the key exchange over the integers modulo
`N`. OpenSSL's big numbers are exact integers here, and `bignum2bytes` is their
shortest big-endian numeral. Both challenges write down the string hashed to `u`
themselves, each with its own order of insertions.

The exchange is that of `PasswordKeyExchange` in the ring `ZMod N`.
-/

namespace San2.DragonSRP

open BigEndian

namespace OsslConversion

/-- `BN_bin2bn` -/
def bytes2bignum (data : Bytes) : ℕ := value data

/-- `BN_num_bytes` bytes, so no leading zeros, and none at all for zero. -/
def bignum2bytes (n : ℕ) : Bytes := minimal n

/-- A number is read back from its bytes. -/
@[simp] theorem bytes2bignum_bignum2bytes (n : ℕ) : bytes2bignum (bignum2bytes n) = n :=
  value_minimal n

/-- A number has as many bytes as it needs. -/
@[simp] theorem length_bignum2bytes (n : ℕ) : (bignum2bytes n).length = byteLength n :=
  length_minimal n

end OsslConversion

open OsslConversion

/-- `BN_mod_exp`: the base may be negative and is reduced first. -/
def bnModExp (base : ℤ) (exponent modulus : ℕ) : ℕ :=
  (base % modulus).toNat ^ exponent % modulus

/-- `BN_mod_mul` -/
def bnModMul (a b modulus : ℕ) : ℕ := a * b % modulus

/-- `BN_mod_add` -/
def bnModAdd (a b modulus : ℕ) : ℕ := (a + b) % modulus

section ZMod

variable {N : ℕ}

/-- `BN_mod_mul` is the product modulo N. -/
@[simp] theorem cast_bnModMul (a b : ℕ) : ((bnModMul a b N : ℕ) : ZMod N) = a * b := by
  unfold bnModMul
  rw [ZMod.natCast_mod, Nat.cast_mul]

/-- `BN_mod_add` is the sum modulo N. -/
@[simp] theorem cast_bnModAdd (a b : ℕ) : ((bnModAdd a b N : ℕ) : ZMod N) = a + b := by
  unfold bnModAdd
  rw [ZMod.natCast_mod, Nat.cast_add]

variable [NeZero N]

/-- `BN_mod_exp` is the power modulo N. -/
@[simp] theorem cast_bnModExp (base : ℤ) (exponent : ℕ) :
    ((bnModExp base exponent N : ℕ) : ZMod N) = (base : ZMod N) ^ exponent := by
  have hN : (N : ℤ) ≠ 0 := Int.natCast_ne_zero.mpr (NeZero.ne N)
  have hcast : (((base % N).toNat : ℕ) : ℤ) = base % N :=
    Int.toNat_of_nonneg (Int.emod_nonneg _ hN)
  have hbase : (((base % N).toNat : ℕ) : ZMod N) = base := by
    rw [← Int.cast_natCast, hcast, ZMod.intCast_mod]
  unfold bnModExp
  rw [ZMod.natCast_mod, Nat.cast_pow, hbase]

/-- A power modulo N is less than N. -/
theorem bnModExp_lt (base : ℤ) (exponent : ℕ) : bnModExp base exponent N < N :=
  Nat.mod_lt _ (NeZero.pos N)

/-- Residues are equal exactly when they are the same element of the ring. -/
theorem bnModExp_eq_iff {base base' : ℤ} {exponent exponent' : ℕ} :
    bnModExp base exponent N = bnModExp base' exponent' N ↔
      (base : ZMod N) ^ exponent = (base' : ZMod N) ^ exponent' := by
  rw [← cast_bnModExp, ← cast_bnModExp, ZMod.natCast_eq_natCast_iff, Nat.ModEq,
    Nat.mod_eq_of_lt (bnModExp_lt _ _), Nat.mod_eq_of_lt (bnModExp_lt _ _)]

end ZMod

/-- The parameters of a group as `Ng` keeps them. -/
structure Ng where
  N : Bytes
  g : Bytes

/-- `Ng::predefined(1024)`, the group of the shell. -/
def Ng.predefined1024 : Ng where
  N :=
    bytes 32 0xEEAF0AB9ADB38DD69C33F80AFA8FC5E86072618775FF3C0B9EA2314C9C256576 ++
    bytes 32 0xD674DF7496EA81D3383B4813D692C6E0E0D5D8E250B98BE48E495C1D6089DAD1 ++
    bytes 32 0x5DC7D7B46154D6B6CE8EF4AD69B15D4982559B297BCF1885C529F566660E57EC ++
    bytes 32 0x68EDBC3C05726CC02FD4CBF4976EAA9AFD5138FE8376435B9FC61D2FC0EB06E3
  g := [2]

/-- The members of an `OsslMathImpl`. -/
structure OsslMathImpl where
  hash : HashInterface
  N : ℕ
  g : ℕ
  k : ℕ

/-- What `clientChallange` returns. -/
structure Challange where
  M1_out : Bytes
  M2_out : Bytes
  K_out : Bytes
  deriving DecidableEq, Repr

/-- `serverChallange` returns its public value as well. -/
structure ServerChallange extends Challange where
  B_out : Bytes
  deriving DecidableEq, Repr

/-- The check for an empty parameter at the start of every computation. -/
def checkParameter (function name : String) (parameter : Bytes) : Except DsrpException Unit :=
  if parameter.length = 0 then
    throw ⟨"OsslMathImpl::" ++ function ++ ": Zero parameter detected. (" ++ name ++ ")"⟩
  else pure ()

/-- A parameter is refused if it is empty. -/
theorem checkParameter_eq_ok {function name : String} {parameter : Bytes} {u : Unit} :
    checkParameter function name parameter = .ok u ↔ parameter ≠ [] := by
  simp [checkParameter]

/-- The padding that both challenges push before a short value: `cu` is resized to
the missing length as a whole, not by it. -/
def padParameter (len_N : ℕ) (cu parameter : Bytes) : Bytes :=
  if parameter.length < len_N then resize (cu ++ [0]) (len_N - parameter.length) else cu

/-- The bytes at the even places, counted from zero. -/
def evenBytes : Bytes → Bytes
  | [] => []
  | [b] => [b]
  | b :: _ :: rest => b :: evenBytes rest

namespace OsslMathImpl

/-- The constructor. A generator of more than twice the length of `N` asks for a
vector of negative length, which throws `std::length_error`. -/
def create (hash : HashInterface) (ngVal : Ng) : Option OsslMathImpl :=
  if 2 * ngVal.N.length < ngVal.g.length then none
  else
    let both := resize (ngVal.N ++ [0]) (2 * ngVal.N.length - ngVal.g.length) ++ ngVal.g
    some ⟨hash, bytes2bignum ngVal.N, bytes2bignum ngVal.g, bytes2bignum (hash.digest both)⟩

variable (math : OsslMathImpl)

/-- `OsslMathImpl::checkNg` -/
def checkNg : Except DsrpException Unit := do
  if math.N = 0 then throw ⟨"OsslMathImpl: N was not set"⟩
  if math.g = 0 then throw ⟨"OsslMathImpl: g was not set"⟩
  if math.k = 0 then throw ⟨"OsslMathImpl: k was not set"⟩

/-- `A = g^a mod N` -/
def calculateA (aa : Bytes) : Except DsrpException Bytes := do
  checkParameter "calculateA" "aa" aa
  math.checkNg
  return bignum2bytes (bnModExp math.g (bytes2bignum aa) math.N)

/-- `x = HASH(salt || HASH(username || ":" || password)` -/
def calculateX (username password salt : Bytes) : ℕ :=
  let ucp := username ++ [58] ++ password
  let hashUcp := math.hash.digest ucp
  bytes2bignum (math.hash.digest (salt ++ hashUcp))

/-- `OsslMathImpl::calculateVerificator` -/
def calculateVerificator (username password salt : Bytes) : Except DsrpException Bytes :=
  if username.length = 0 ∨ password.length = 0 ∨ salt.length = 0 then
    throw ⟨"Create verificator null parameter."⟩
  else
    return bignum2bytes (bnModExp math.g (math.calculateX username password salt) math.N)

/-- `M = H(H(N) XOR H(g) | H(username) | s | A | B | K)` -/
def calculateM1 (username s A B K : Bytes) : Except DsrpException Bytes := do
  checkParameter "calculateM1" "username" username
  checkParameter "calculateM1" "s" s
  checkParameter "calculateM1" "A" A
  checkParameter "calculateM1" "B" B
  checkParameter "calculateM1" "K" K
  let H_N := math.hash.digest (bignum2bytes math.N)
  let H_g := math.hash.digest (bignum2bytes math.g)
  let H_username := math.hash.digest username
  let H_xor := List.zipWith (· ^^^ ·) H_N H_g
  return math.hash.digest (H_xor ++ H_username ++ s ++ A ++ B ++ K)

/-- The bytes at the even and at the odd places are hashed apart and the two digests
mixed. Both passes write to the front of the same vector `E`. -/
def interleaveHalves (it : Bytes) (halfLen : ℕ) : Bytes :=
  let even := evenBytes it
  let E := even ++ List.replicate (halfLen - even.length) 0
  let G := math.hash.digest E
  let odd := evenBytes (it.drop 1)
  let E := odd ++ E.drop odd.length
  let H := math.hash.digest E
  (List.zipWith (fun e o => [e, o]) G H).flatten

/-- `OsslMathImpl::interleaveS` -/
def interleaveS (S : Bytes) : Except DsrpException Bytes := do
  checkParameter "interleaveS" "S" S
  let skipped := S.dropWhile (· = 0)
  let it := if S.length % 2 = 1 then skipped.drop 1 else skipped
  if it.length = 0 then throw ⟨"OsslMathImpl::interleaveS: something went terribly wrong"⟩
  else return math.interleaveHalves it (S.length / 2)

/-- The session key of a shared secret. -/
def calculateK (interleave : Bool) (S : ℕ) : Except DsrpException Bytes :=
  let SS := bignum2bytes S
  if interleave then math.interleaveS SS else return math.hash.digest SS

/-- `M2 = H(A || M || K)` -/
def calculateM2 (AA M1 K : Bytes) : Bytes := math.hash.digest (AA ++ M1 ++ K)

/-- The string that `clientChallange` hashes to `u`: `A` goes to the front. -/
def clientCu (AA BB : Bytes) : Bytes :=
  let len_N := byteLength math.N
  let cu := padParameter len_N [] AA
  let cu := AA ++ cu
  let cu := padParameter len_N cu BB
  cu ++ BB

/-- The string that `serverChallange` hashes to `u`: `A` goes to the end. -/
def serverCu (AA B_out : Bytes) : Bytes :=
  let len_N := byteLength math.N
  let cu := padParameter len_N [] AA
  let cu := cu ++ AA
  let cu := padParameter len_N cu B_out
  cu ++ B_out

/-- The number that a string is hashed to. -/
def calculateU (cu : Bytes) : ℕ := bytes2bignum (math.hash.digest cu)

/-- The exponent of the client's secret. -/
def clientExponent (a u x : ℕ) : ℕ := bnModAdd a (bnModMul u x math.N) math.N

/-- `S = (B - k*(g^x)) ^ (a + ux)` -/
def clientS (a B u x : ℕ) : ℕ :=
  let tmp3 := bnModMul math.k (bnModExp math.g x math.N) math.N
  bnModExp ((B : ℤ) - tmp3) (math.clientExponent a u x) math.N

/-- `S = (A * (v^u)) ^ b` -/
def serverS (A v u b : ℕ) : ℕ :=
  bnModExp (bnModMul A (bnModExp v u math.N) math.N : ℕ) b math.N

/-- `OsslMathImpl::clientChallange` -/
def clientChallange (salt aa AA BB username password : Bytes) (interleave : Bool) :
    Except DsrpException Challange := do
  checkParameter "clientChallange" "salt" salt
  checkParameter "clientChallange" "aa" aa
  checkParameter "clientChallange" "AA" AA
  checkParameter "clientChallange" "BB" BB
  checkParameter "clientChallange" "username" username
  checkParameter "clientChallange" "password" password
  math.checkNg
  let u := math.calculateU (math.clientCu AA BB)
  let B := bytes2bignum BB
  let x := math.calculateX username password salt
  if B ≠ 0 ∧ u ≠ 0 then
    let a := bytes2bignum aa
    let S := math.clientS a B u x
    let K_out ← math.calculateK interleave S
    let M1_out ← math.calculateM1 username salt AA BB K_out
    return ⟨M1_out, math.calculateM2 AA M1_out K_out, K_out⟩
  else throw ⟨"Dsrp:Authentification failed:B or u is zero."⟩

/-- `OsslMathImpl::serverChallange` -/
def serverChallange (username salt verificator AA bb : Bytes) (interleave : Bool) :
    Except DsrpException ServerChallange := do
  checkParameter "serverChallange" "username" username
  checkParameter "serverChallange" "salt" salt
  checkParameter "serverChallange" "verificator" verificator
  checkParameter "serverChallange" "AA" AA
  checkParameter "serverChallange" "bb" bb
  math.checkNg
  let A := bytes2bignum AA
  let b := bytes2bignum bb
  let v := bytes2bignum verificator
  if A % math.N ≠ 0 ∧ v ≠ 0 then
    let B := bnModAdd (bnModMul math.k v math.N) (bnModExp math.g b math.N) math.N
    let B_out := bignum2bytes B
    let u := math.calculateU (math.serverCu AA B_out)
    let S := math.serverS A v u b
    let K_out ← math.calculateK interleave S
    let M1_out ← math.calculateM1 username salt AA B_out K_out
    return ⟨⟨M1_out, math.calculateM2 AA M1_out K_out, K_out⟩, B_out⟩
  else throw ⟨"Dsrp:Authentification failed:serverChalange: invalid parameters"⟩

/-- The tail that both challenges share: the session key of a secret and the two
messages that prove it. -/
def proofs (username salt AA BB : Bytes) (interleave : Bool) (S : ℕ) :
    Except DsrpException Challange := do
  let K_out ← math.calculateK interleave S
  let M1_out ← math.calculateM1 username salt AA BB K_out
  return ⟨M1_out, math.calculateM2 AA M1_out K_out, K_out⟩

variable {math}

/-- The group is refused if one of its numbers is zero. -/
theorem checkNg_eq_ok {u : Unit} :
    math.checkNg = .ok u ↔ math.N ≠ 0 ∧ math.g ≠ 0 ∧ math.k ≠ 0 := by
  unfold checkNg
  by_cases hN : math.N = 0
  · simp [hN, bind_eq_ok]
  · by_cases hg : math.g = 0
    · simp [hN, hg, bind_eq_ok]
    · by_cases hk : math.k = 0 <;> simp [hN, hg, hk]

/-- A successful `calculateA` returns the numeral of a power of `g`. -/
theorem calculateA_eq_ok {aa AA : Bytes} (h : math.calculateA aa = .ok AA) :
    math.N ≠ 0 ∧ AA = bignum2bytes (bnModExp math.g (bytes2bignum aa) math.N) := by
  unfold calculateA at h
  obtain ⟨_, -, h⟩ := bind_eq_ok.mp h
  obtain ⟨_, hNg, h⟩ := bind_eq_ok.mp h
  exact ⟨(checkNg_eq_ok.mp hNg).1, (pure_eq_ok.mp h).symm⟩

/-- A verificator is the numeral of a power of `g`. -/
theorem calculateVerificator_eq_ok {username password salt vv : Bytes}
    (h : math.calculateVerificator username password salt = .ok vv) :
    vv = bignum2bytes (bnModExp math.g (math.calculateX username password salt) math.N) := by
  unfold calculateVerificator at h
  split at h
  · exact absurd h throw_ne_ok
  · exact (pure_eq_ok.mp h).symm

/-- The public value of the server. -/
def serverB (math : OsslMathImpl) (v b : ℕ) : ℕ :=
  bnModAdd (bnModMul math.k v math.N) (bnModExp math.g b math.N) math.N

/-- A client that does not throw has received a public value and proves a key. -/
theorem clientChallange_eq_ok {salt aa AA BB username password : Bytes} {interleave : Bool}
    {c : Challange}
    (h : math.clientChallange salt aa AA BB username password interleave = .ok c) :
    BB ≠ [] ∧
      math.proofs username salt AA BB interleave
        (math.clientS (bytes2bignum aa) (bytes2bignum BB)
          (math.calculateU (math.clientCu AA BB)) (math.calculateX username password salt)) =
        .ok c := by
  unfold clientChallange at h
  obtain ⟨_, -, h⟩ := bind_eq_ok.mp h
  obtain ⟨_, -, h⟩ := bind_eq_ok.mp h
  obtain ⟨_, -, h⟩ := bind_eq_ok.mp h
  obtain ⟨_, hBB, h⟩ := bind_eq_ok.mp h
  obtain ⟨_, -, h⟩ := bind_eq_ok.mp h
  obtain ⟨_, -, h⟩ := bind_eq_ok.mp h
  obtain ⟨_, -, h⟩ := bind_eq_ok.mp h
  dsimp only at h
  split at h
  · exact ⟨checkParameter_eq_ok.mp hBB, h⟩
  · exact absurd h throw_ne_ok

/-- A server that does not throw has received a client value that is not zero. -/
theorem serverChallange_eq_ok {username salt verificator AA bb : Bytes} {interleave : Bool}
    {s : ServerChallange}
    (h : math.serverChallange username salt verificator AA bb interleave = .ok s) :
    AA ≠ [] ∧ bytes2bignum AA % math.N ≠ 0 ∧
      s.B_out = bignum2bytes (math.serverB (bytes2bignum verificator) (bytes2bignum bb)) ∧
      math.proofs username salt AA s.B_out interleave
        (math.serverS (bytes2bignum AA) (bytes2bignum verificator)
          (math.calculateU (math.serverCu AA s.B_out)) (bytes2bignum bb)) =
        .ok s.toChallange := by
  unfold serverChallange at h
  obtain ⟨_, -, h⟩ := bind_eq_ok.mp h
  obtain ⟨_, -, h⟩ := bind_eq_ok.mp h
  obtain ⟨_, -, h⟩ := bind_eq_ok.mp h
  obtain ⟨_, hAA, h⟩ := bind_eq_ok.mp h
  obtain ⟨_, -, h⟩ := bind_eq_ok.mp h
  obtain ⟨_, -, h⟩ := bind_eq_ok.mp h
  dsimp only at h
  split at h
  · rename_i hA
    obtain ⟨K, hK, h⟩ := bind_eq_ok.mp h
    obtain ⟨M1, hM1, h⟩ := bind_eq_ok.mp h
    obtain rfl := pure_eq_ok.mp h
    refine ⟨checkParameter_eq_ok.mp hAA, hA.1, rfl, ?_⟩
    exact bind_eq_ok.mpr ⟨K, hK, bind_eq_ok.mpr ⟨M1, hM1, rfl⟩⟩
  · exact absurd h throw_ne_ok

/-- Two proofs for the same public values are the same as soon as the keys are. -/
theorem proofs_eq_iff {username salt AA BB : Bytes} {interleave : Bool} {S S' : ℕ}
    {c c' : Challange} (h : math.proofs username salt AA BB interleave S = .ok c)
    (h' : math.proofs username salt AA BB interleave S' = .ok c') :
    c = c' ↔ math.calculateK interleave S = math.calculateK interleave S' := by
  obtain ⟨K, hK, h⟩ := bind_eq_ok.mp h
  obtain ⟨M1, hM1, h⟩ := bind_eq_ok.mp h
  obtain ⟨K', hK', h'⟩ := bind_eq_ok.mp h'
  obtain ⟨M1', hM1', h'⟩ := bind_eq_ok.mp h'
  obtain rfl := pure_eq_ok.mp h
  obtain rfl := pure_eq_ok.mp h'
  rw [hK, hK']
  constructor
  · intro heq
    rw [(Challange.mk.inj heq).2.2]
  · intro heq
    obtain rfl := Except.ok.inj heq
    obtain rfl := Except.ok.inj (hM1.symm.trans hM1')
    rfl

/-- Without hash output there is no session key. -/
theorem calculateK_eq_nil {interleave : Bool} {S : ℕ} {K : Bytes}
    (hlen : math.hash.outputLen = 0) (h : math.calculateK interleave S = .ok K) : K = [] := by
  have hnil (data : Bytes) : math.hash.digest data = [] := by
    rw [← List.length_eq_zero_iff, HashInterface.length_digest, hlen]
  unfold calculateK at h
  cases interleave with
  | false =>
    rw [← pure_eq_ok.mp h]
    exact hnil _
  | true =>
    simp only [if_true, interleaveS] at h
    obtain ⟨_, -, h⟩ := bind_eq_ok.mp h
    generalize hit : (if List.length (bignum2bytes S) % 2 = 1 then _ else _ : Bytes) = it at h
    split at h
    · exact absurd h throw_ne_ok
    · rw [← pure_eq_ok.mp h, interleaveHalves, hnil, hnil, List.zipWith_nil_left,
        List.flatten_nil]

/-- An interleaved key is twice as long as a digest. -/
theorem length_calculateK {S : ℕ} {K : Bytes} (h : math.calculateK true S = .ok K) :
    K.length = 2 * math.hash.outputLen := by
  have hmix (G H : Bytes) (hlen : G.length = H.length) :
      (List.zipWith (fun e o => [e, o]) G H).flatten.length = 2 * G.length := by
    induction G generalizing H with
    | nil => simp
    | cons e G ih =>
      cases H with
      | nil => simp at hlen
      | cons o H =>
        have hrest := ih H (by simpa using hlen)
        simp only [List.zipWith_cons_cons, List.flatten_cons, List.length_append,
          List.length_cons, List.length_nil, hrest]
        omega
  simp only [calculateK, if_true, interleaveS] at h
  obtain ⟨_, -, h⟩ := bind_eq_ok.mp h
  obtain ⟨-, h⟩ := ite_throw_eq_ok.mp h
  rw [← pure_eq_ok.mp h, interleaveHalves, hmix _ _ (by simp), HashInterface.length_digest]

/-- With interleaving a proof has a key of two digests and messages of one. -/
theorem length_proofs {username salt AA BB : Bytes} {S : ℕ} {c : Challange}
    (h : math.proofs username salt AA BB true S = .ok c) :
    c.K_out.length = 2 * math.hash.outputLen ∧ c.M2_out.length = math.hash.outputLen := by
  obtain ⟨K, hK, h⟩ := bind_eq_ok.mp h
  obtain ⟨M1, -, h⟩ := bind_eq_ok.mp h
  obtain rfl := pure_eq_ok.mp h
  exact ⟨length_calculateK hK, HashInterface.length_digest _ _⟩

/-- The two messages of a proof are never empty. -/
theorem proofs_ne_nil {username salt AA BB : Bytes} {interleave : Bool} {S : ℕ} {c : Challange}
    (h : math.proofs username salt AA BB interleave S = .ok c) :
    c.M1_out ≠ [] ∧ c.M2_out ≠ [] := by
  obtain ⟨K, hK, h⟩ := bind_eq_ok.mp h
  obtain ⟨M1, hM1, h⟩ := bind_eq_ok.mp h
  obtain rfl := pure_eq_ok.mp h
  unfold calculateM1 at hM1
  obtain ⟨_, -, hM1⟩ := bind_eq_ok.mp hM1
  obtain ⟨_, -, hM1⟩ := bind_eq_ok.mp hM1
  obtain ⟨_, -, hM1⟩ := bind_eq_ok.mp hM1
  obtain ⟨_, -, hM1⟩ := bind_eq_ok.mp hM1
  obtain ⟨_, hKne, hM1⟩ := bind_eq_ok.mp hM1
  have hlen : math.hash.outputLen ≠ 0 := fun hzero =>
    checkParameter_eq_ok.mp hKne (calculateK_eq_nil hzero hK)
  have hdigest (data : Bytes) : math.hash.digest data ≠ [] := by
    intro hnil
    apply hlen
    rw [← HashInterface.length_digest math.hash data, hnil, List.length_nil]
  constructor
  · rw [← pure_eq_ok.mp hM1]
    exact hdigest _
  · exact hdigest _

/-- A value as long as `N` is not padded, and both ends hash the same string. -/
theorem clientCu_of_le {AA : Bytes} (BB : Bytes) (h : byteLength math.N ≤ AA.length) :
    math.clientCu AA BB = math.serverCu AA BB := by
  have hA : padParameter (byteLength math.N) [] AA = [] := by
    unfold padParameter
    rw [if_neg (by omega)]
  simp only [clientCu, serverCu, hA, List.append_nil, List.nil_append]

/-- The padding for a second value leaves the first byte in place. -/
theorem head?_padParameter (len_N : ℕ) (first : UInt8) (cu parameter : Bytes) :
    (padParameter len_N (first :: cu) parameter).head? = some first := by
  unfold padParameter
  split
  · obtain ⟨missing, hmissing⟩ : ∃ n, len_N - parameter.length = n + 1 :=
      ⟨len_N - parameter.length - 1, by omega⟩
    rw [hmissing]
    rfl
  · rfl

/-- A shorter value is padded, before it on the server and behind it on the client,
so the two strings differ in their first byte. -/
theorem clientCu_ne {AA : Bytes} (BB : Bytes) (hfirst : ∃ b rest, AA = b :: rest ∧ b ≠ 0)
    (h : AA.length < byteLength math.N) : math.clientCu AA BB ≠ math.serverCu AA BB := by
  obtain ⟨b, rest, rfl, hb⟩ := hfirst
  obtain ⟨missing, hmissing⟩ : ∃ n, byteLength math.N - (b :: rest).length = n + 1 :=
    ⟨byteLength math.N - (b :: rest).length - 1, by omega⟩
  have hserver : (math.serverCu (b :: rest) BB).head? = some 0 := by
    have hpad : padParameter (byteLength math.N) [] (b :: rest) =
        0 :: List.replicate missing 0 := by
      unfold padParameter
      rw [if_pos h, hmissing, resize]
      simp
    simp only [serverCu, hpad, List.cons_append, List.head?_append, head?_padParameter,
      Option.some_or]
  have hclient : (math.clientCu (b :: rest) BB).head? = some b := by
    simp only [clientCu, List.cons_append, List.head?_append, head?_padParameter, Option.some_or]
  intro heq
  rw [heq, hserver] at hclient
  exact hb (Option.some.inj hclient).symm

/-- The power of `g^b` that an exponent selects. -/
def sharedSecret (math : OsslMathImpl) (b exponent : ℕ) : ℕ :=
  bnModExp (bnModExp math.g b math.N : ℕ) exponent math.N

/-- On the server's public value the client computes a power of `g^b`. -/
theorem clientS_eq (hN : math.N ≠ 0) (a b u x : ℕ) :
    math.clientS a (math.serverB (bnModExp math.g x math.N) b) u x =
      math.sharedSecret b (math.clientExponent a u x) := by
  have : NeZero math.N := ⟨hN⟩
  unfold clientS sharedSecret serverB
  rw [bnModExp_eq_iff]
  simp only [Int.cast_sub, Int.cast_natCast, cast_bnModAdd, cast_bnModMul, cast_bnModExp]
  exact PasswordKeyExchange.clientShared_eq (math.g : ZMod math.N) math.k x b
    (math.clientExponent a u x)

/-- The server computes the power that SRP-6a asks for. -/
theorem serverS_eq (hN : math.N ≠ 0) (a b u x : ℕ) :
    math.serverS (bnModExp math.g a math.N) (bnModExp math.g x math.N) u b =
      math.sharedSecret b (a + u * x) := by
  have : NeZero math.N := ⟨hN⟩
  unfold serverS sharedSecret
  rw [bnModExp_eq_iff]
  simp only [Int.cast_natCast, cast_bnModMul, cast_bnModExp]
  exact PasswordKeyExchange.serverShared_eq (math.g : ZMod math.N) a x u b

/-- The client's exponent is the one of SRP-6a while it stays below `N`. -/
theorem clientExponent_of_lt {a u x : ℕ} (h : a + u * x < math.N) :
    math.clientExponent a u x = a + u * x := by
  unfold clientExponent bnModAdd bnModMul
  rw [Nat.mod_eq_of_lt (by omega : u * x < math.N), Nat.mod_eq_of_lt h]

/-- Where `g` is invertible, two exponents give the same secret exactly when the order
of `g^b` cannot tell them apart. -/
theorem sharedSecret_eq_iff (hN : math.N ≠ 0) (hg : math.g.Coprime math.N)
    {b exponent exponent' : ℕ} :
    math.sharedSecret b exponent = math.sharedSecret b exponent' ↔
      exponent ≡ exponent' [MOD orderOf ((math.g : ZMod math.N) ^ b)] := by
  have : NeZero math.N := ⟨hN⟩
  have hunit : IsUnit (math.g : ZMod math.N) := (ZMod.isUnit_iff_coprime _ _).mpr hg
  unfold sharedSecret
  rw [bnModExp_eq_iff]
  simpa using PasswordKeyExchange.shared_eq_iff hunit

end OsslMathImpl

end San2.DragonSRP
