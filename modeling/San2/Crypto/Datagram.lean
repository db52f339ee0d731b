import San2.Crypto.HashInterface
import San2.Crypto.AesCounter

/-!
# Protected datagrams

A session key is stretched into one set of keys for each direction. A datagram is
encrypted in counter mode and then authenticated together with its sequence
number, which itself does not travel: its place is taken by the truncated digest.

`encryptAndAuthenticate` and `decryptAndVerifyMac` write to a buffer of the caller
without knowing its size. The size is a parameter here, and a write behind the end
is an outcome of its own.
-/

namespace San2.DragonSRP

open Utils

/-- What the code takes from the machine and from OpenSSL. -/
structure Platform where
  host : ByteOrder
  cipher : BlockCipher
  sha1 : Bytes → FixedBytes 20

/-- `OsslSha1` -/
def Platform.osslSha1 (p : Platform) : HashInterface := ⟨20, 64, p.sha1⟩

/-- The two unrelated classes of exceptions. -/
inductive CryptoException
  | dsrp (e : DsrpException)
  | aes (e : AesException)
  deriving DecidableEq, Repr

/-- The end of a call that writes to a buffer of its caller. -/
inductive Outcome (α : Type)
  /-- It writes behind the end of the buffer. -/
  | fault
  | throws (e : CryptoException)
  | returns (a : α)
  deriving DecidableEq, Repr

/-- The keys of an HMAC, with their pads. -/
structure Hmac where
  ikeypad : Bytes
  okeypad : Bytes
  deriving DecidableEq, Repr

namespace Hmac

/-- The constructor. `MacException` derives from `DsrpException`. -/
def create (hash : HashInterface) (key : Bytes) : Except DsrpException Hmac :=
  let padSize := hash.blockSize
  if key.length = 0 then throw ⟨"Mac - empty key provided."⟩
  else if padSize < key.length then throw ⟨"Mac - too long key provided. Hash it first."⟩
  else
    let mKey := resize key padSize
    return ⟨mKey.map (· ^^^ 0x36), mKey.map (· ^^^ 0x5c)⟩

/-- The HMAC of some data. -/
def hmac (hash : HashInterface) (mac : Hmac) (data : Bytes) : Bytes :=
  hash.digest (mac.okeypad ++ hash.digest (mac.ikeypad ++ data))

end Hmac

/-- `HASHKEYDERIVATOR_MIN_SESSIONKEY_SIZE` -/
abbrev hashKeyDerivatorMinSessionKeySize : ℕ := 16

/-- `HASHKEYDERIVATOR_MIN_DERIVSTR_SIZE` -/
abbrev hashKeyDerivatorMinDerivStrSize : ℕ := 8

/-- `HASHKEYDERIVATOR_MIN_HASHOUT_SIZE` -/
abbrev hashKeyDerivatorMinHashOutSize : ℕ := 8

/-- The characters of an ASCII string. -/
def string2bytes (str : String) : Bytes := str.toList.map fun c => UInt8.ofNat c.toNat

/-- The six keys that are derived from a session key. -/
structure HashKeyDerivator where
  mClientEncryptionKey : Bytes
  mClientIV : Bytes
  mClientMacKey : Bytes
  mServerEncryptionKey : Bytes
  mServerIV : Bytes
  mServerMacKey : Bytes
  deriving DecidableEq, Repr

namespace HashKeyDerivator

/-- The loop of `deriveBytes`. Every turn appends a digest, so `length` turns are
enough, see `le_length_deriveLoop`. -/
def deriveLoop (hash : HashInterface) (length : ℕ) (sessionSrpKey : Bytes) :
    ℕ → Bytes → Bytes → Bytes
  | 0, _, result => result
  | turns + 1, hashedDerivationString, result =>
    if result.length < length then
      let hashedPartialResut := hash.digest (sessionSrpKey ++ hashedDerivationString)
      deriveLoop hash length sessionSrpKey turns (hash.digest hashedDerivationString)
        (result ++ hashedPartialResut)
    else result

/-- After as many rounds as bytes are missing nothing is missing. -/
theorem le_length_deriveLoop (hash : HashInterface) (hlen : 0 < hash.outputLen) (length : ℕ)
    (sessionSrpKey : Bytes) (turns : ℕ) (hashed result : Bytes)
    (h : length ≤ result.length + turns) :
    length ≤ (deriveLoop hash length sessionSrpKey turns hashed result).length := by
  induction turns generalizing hashed result with
  | zero => simpa [deriveLoop] using h
  | succ turns ih =>
    unfold deriveLoop
    split
    · apply ih
      rw [List.length_append, HashInterface.length_digest]
      omega
    · omega

/-- `HashKeyDerivator::deriveBytes` -/
def deriveBytes (p : Platform) (length : ℕ) (derivationString sessionSrpKey : Bytes) :
    Except DsrpException Bytes :=
  if length = 0 then throw ⟨"HashKeyDerivator::deriveBytes: length == 0"⟩
  else if derivationString.length < hashKeyDerivatorMinDerivStrSize then
    throw ⟨"HashKeyDerivator::deriveBytes: derivationString.size() < " ++
      "HASHKEYDERIVATOR_MIN_DERIVSTR_SIZE"⟩
  else if p.osslSha1.outputLen < hashKeyDerivatorMinHashOutSize then
    throw ⟨"HashKeyDerivator::deriveBytes: hash.outputLen() < HASHKEYDERIVATOR_MIN_HASHOUT_SIZE"⟩
  else
    let hashedDerivationString := p.osslSha1.digest derivationString
    return resize
      (deriveLoop p.osslSha1 length sessionSrpKey length hashedDerivationString []) length

/-- The constructor. -/
def create (p : Platform) (sessionSrpKey : Bytes)
    (blockCipherKeyBytes blockCipherIVBytes macKeyBytes : ℕ) :
    Except DsrpException HashKeyDerivator := do
  if blockCipherKeyBytes = 16 then
    throw ⟨"SimpleKeyDerivator::SimpleKeyDerivator: blockCipherKeyBytes not long enough"⟩
  if macKeyBytes = 8 then
    throw ⟨"SimpleKeyDerivator::SimpleKeyDerivator: macKeyBytes not long enough"⟩
  if sessionSrpKey.length < hashKeyDerivatorMinSessionKeySize then
    throw ⟨"SimpleKeyDerivator::SimpleKeyDerivator: sessionKey not long enough"⟩
  let derive (length : ℕ) (str : String) := deriveBytes p length (string2bytes str) sessionSrpKey
  return {
    mClientEncryptionKey := ← derive blockCipherKeyBytes "shell client encryption key"
    mClientIV := ← derive blockCipherIVBytes "shell client encrpytion IV"
    mClientMacKey := ← derive macKeyBytes "shell client MAC key"
    mServerEncryptionKey := ← derive blockCipherKeyBytes "shell server encryption key"
    mServerIV := ← derive blockCipherIVBytes "shell server encrpytion IV"
    mServerMacKey := ← derive macKeyBytes "shell server MAC key" }

end HashKeyDerivator

/-- `DSRP_ENCPARAM_TRUNCDIGEST_SIZE` -/
abbrev truncDigestSize : ℕ := 12

/-- The members that `DatagramEncryptor` and `DatagramDecryptor` have in common. -/
structure DatagramCipher where
  aesCtr : AesCounter
  hmac : Hmac
  deriving DecidableEq

/-- The constructor of both classes. -/
def DatagramCipher.create (p : Platform) (encryptionKey IV macKey : Bytes) :
    Except CryptoException DatagramCipher :=
  match AesCounter.create IV encryptionKey with
  | .error e => throw (.aes e)
  | .ok aesCtr =>
    match Hmac.create p.osslSha1 macKey with
    | .error e => throw (.dsrp e)
    | .ok hmac =>
      if macKey.length < p.osslSha1.outputLen then
        throw (.dsrp ⟨"DatagramEncryptor::DatagramEncryptor: macKey not long enough"⟩)
      else return ⟨aesCtr, hmac⟩

/-- `getOverheadLen` -/
def getOverheadLen : ℕ := 8 + truncDigestSize

/-- The digest over a ciphertext and its sequence number, cut to the length it
travels with. -/
def DatagramCipher.truncDigest (p : Platform) (cipher : DatagramCipher) (ciphertext : Bytes)
    (sequenceNumber : UInt64) : Bytes :=
  let beSequencenumber := Endian.sanUHtobe64 p.host sequenceNumber
  let toCalculate := ciphertext ++ p.host.store 8 beSequencenumber.toNat
  (cipher.hmac.hmac p.osslSha1 toCalculate).take truncDigestSize

/-- `DatagramEncryptor` -/
abbrev DatagramEncryptor := DatagramCipher

/-- `DatagramDecryptor` -/
abbrev DatagramDecryptor := DatagramCipher

/-- Encrypt into a buffer of `capacity` bytes: the ciphertext, and behind it first the
sequence number and then the digest in its place. -/
def DatagramEncryptor.encryptAndAuthenticate (p : Platform) (enc : DatagramEncryptor)
    (capacity : ℕ) (plaintext : Bytes) (sequenceNumber : UInt64) : Outcome Bytes :=
  match enc.aesCtr.encrypt p.host p.cipher plaintext sequenceNumber with
  | .error e => .throws (.aes e)
  | .ok ciphertext =>
    if capacity < plaintext.length + truncDigestSize then .fault
    else .returns (ciphertext ++ enc.truncDigest p ciphertext sequenceNumber)

/-- Verify and decrypt into a buffer of `capacity` bytes, which first holds the
ciphertext with the expected sequence number behind it. -/
def DatagramDecryptor.decryptAndVerifyMac (p : Platform) (dec : DatagramDecryptor)
    (capacity : ℕ) (dataIn : Bytes) (expectedSequenceNumber : UInt64) : Outcome Bytes :=
  if dataIn.length ≤ truncDigestSize then
    .throws (.dsrp ⟨"Malformed packet decryption attempt"⟩)
  else
    let dataOutLen := dataIn.length - truncDigestSize
    if capacity < dataOutLen + 8 then .fault
    else if dec.truncDigest p (dataIn.take dataOutLen) expectedSequenceNumber ≠
        dataIn.drop dataOutLen then
      .throws (.dsrp ⟨"Mac signature inccorect. Possible attack detected."⟩)
    else
      match dec.aesCtr.encrypt p.host p.cipher (dataIn.take dataOutLen)
          expectedSequenceNumber with
      | .error e => .throws (.aes e)
      | .ok plaintext => .returns plaintext

/-- A session key of the shell gives keys of exactly the lengths asked for. -/
structure HashKeyDerivator.Fits (keydrv : HashKeyDerivator) : Prop where
  clientEncryptionKey : keydrv.mClientEncryptionKey.length = 32
  clientIV : keydrv.mClientIV.length = 6
  clientMacKey : keydrv.mClientMacKey.length = 20
  serverEncryptionKey : keydrv.mServerEncryptionKey.length = 32
  serverIV : keydrv.mServerIV.length = 6
  serverMacKey : keydrv.mServerMacKey.length = 20

/-- `deriveBytes` fills the length asked for, from a derivation string of enough bytes. -/
theorem deriveBytes_eq_ok (p : Platform) {length : ℕ} (hlength : length ≠ 0)
    {derivationString : Bytes} (hstr : 8 ≤ derivationString.length) (sessionSrpKey : Bytes) :
    ∃ key : Bytes, key.length = length ∧
      HashKeyDerivator.deriveBytes p length derivationString sessionSrpKey = .ok key := by
  unfold HashKeyDerivator.deriveBytes
  rw [if_neg hlength, if_neg (Nat.not_lt.mpr hstr)]
  exact ⟨_, length_resize _ length, rfl⟩

/-- With the lengths of the shell the constructor asks only for a session key of at
least sixteen bytes. -/
theorem HashKeyDerivator.create_eq_ok (p : Platform) {K : Bytes} (hK : 16 ≤ K.length) :
    ∃ keydrv, HashKeyDerivator.create p K 32 6 20 = .ok keydrv ∧ keydrv.Fits := by
  obtain ⟨cliEnc, hcliEnc, hcliEnc'⟩ := deriveBytes_eq_ok p (by decide : 32 ≠ 0)
    (by decide : 8 ≤ (string2bytes "shell client encryption key").length) K
  obtain ⟨cliIV, hcliIV, hcliIV'⟩ := deriveBytes_eq_ok p (by decide : 6 ≠ 0)
    (by decide : 8 ≤ (string2bytes "shell client encrpytion IV").length) K
  obtain ⟨cliMac, hcliMac, hcliMac'⟩ := deriveBytes_eq_ok p (by decide : 20 ≠ 0)
    (by decide : 8 ≤ (string2bytes "shell client MAC key").length) K
  obtain ⟨srvEnc, hsrvEnc, hsrvEnc'⟩ := deriveBytes_eq_ok p (by decide : 32 ≠ 0)
    (by decide : 8 ≤ (string2bytes "shell server encryption key").length) K
  obtain ⟨srvIV, hsrvIV, hsrvIV'⟩ := deriveBytes_eq_ok p (by decide : 6 ≠ 0)
    (by decide : 8 ≤ (string2bytes "shell server encrpytion IV").length) K
  obtain ⟨srvMac, hsrvMac, hsrvMac'⟩ := deriveBytes_eq_ok p (by decide : 20 ≠ 0)
    (by decide : 8 ≤ (string2bytes "shell server MAC key").length) K
  refine ⟨⟨cliEnc, cliIV, cliMac, srvEnc, srvIV, srvMac⟩, ?_,
    ⟨hcliEnc, hcliIV, hcliMac, hsrvEnc, hsrvIV, hsrvMac⟩⟩
  have hshort : ¬ K.length < hashKeyDerivatorMinSessionKeySize := by
    unfold hashKeyDerivatorMinSessionKeySize
    omega
  unfold HashKeyDerivator.create
  rw [if_neg (by decide), if_neg (by decide), if_neg hshort]
  dsimp only
  rw [hcliEnc', hcliIV', hcliMac', hsrvEnc', hsrvIV', hsrvMac']
  rfl

/-- Keys of the right lengths make a cipher. -/
theorem DatagramCipher.create_eq_ok (p : Platform) {encryptionKey IV macKey : Bytes}
    (hkey : encryptionKey.length = 32) (hIV : IV.length = 6) (hmac : macKey.length = 20) :
    ∃ cipher, DatagramCipher.create p encryptionKey IV macKey = .ok cipher := by
  have haes : AesCounter.create IV encryptionKey =
      .ok ⟨⟨IV, hIV⟩, ⟨encryptionKey, hkey⟩⟩ := by
    unfold AesCounter.create
    rw [dif_pos hIV, dif_pos hkey]
  have hmacKey : Hmac.create p.osslSha1 macKey = .ok
      ⟨(resize macKey 64).map (· ^^^ 0x36), (resize macKey 64).map (· ^^^ 0x5c)⟩ := by
    unfold Hmac.create
    rw [if_neg (by omega), if_neg (by rw [hmac]; exact Nat.not_lt.mpr (by decide : 20 ≤ 64))]
    rfl
  have hlong : ¬ macKey.length < p.osslSha1.outputLen := by
    rw [hmac]
    exact lt_irrefl 20
  unfold DatagramCipher.create
  rw [haes]
  simp only [hmacKey, if_neg hlong]
  exact ⟨_, rfl⟩

/-- The shortened digest has ten bytes. -/
@[simp] theorem DatagramCipher.length_truncDigest (p : Platform) (cipher : DatagramCipher)
    (ciphertext : Bytes) (sequenceNumber : UInt64) :
    (cipher.truncDigest p ciphertext sequenceNumber).length = truncDigestSize := by
  unfold truncDigest Hmac.hmac
  rw [List.length_take, HashInterface.length_digest]
  rfl

/-- What `encryptAndAuthenticate` needs of the plaintext, and what it returns. -/
theorem encryptAndAuthenticate_eq_returns (p : Platform) (enc : DatagramEncryptor)
    (capacity : ℕ) {plaintext : Bytes} {sequenceNumber : UInt64} (hpos : 0 < plaintext.length)
    (hmax : plaintext.length ≤ aesMaxPacketOct) (hseq : sequenceNumber ≠ 0xFFFFFFFFFFFFFFFF)
    (hcapacity : plaintext.length + truncDigestSize ≤ capacity) :
    ∃ ciphertext, ciphertext.length = plaintext.length ∧
      enc.aesCtr.encrypt p.host p.cipher ciphertext sequenceNumber = .ok plaintext ∧
      DatagramEncryptor.encryptAndAuthenticate p enc capacity plaintext sequenceNumber =
        .returns (ciphertext ++ enc.truncDigest p ciphertext sequenceNumber) := by
  obtain ⟨ciphertext, hencrypt⟩ := (AesCounter.encrypt_ok_iff p.host p.cipher enc.aesCtr plaintext
    sequenceNumber).mpr ⟨hpos, hmax, hseq⟩
  obtain ⟨hlength, hdecrypt⟩ := AesCounter.encrypt_encrypt p.host p.cipher enc.aesCtr hencrypt
  refine ⟨ciphertext, hlength, hdecrypt, ?_⟩
  unfold DatagramEncryptor.encryptAndAuthenticate
  rw [hencrypt]
  exact if_neg (by omega)

/-- A call that returns has had room, and a plaintext and number that are accepted. -/
theorem encryptAndAuthenticate_returns {p : Platform} {enc : DatagramEncryptor} {capacity : ℕ}
    {plaintext out : Bytes} {sequenceNumber : UInt64}
    (h : DatagramEncryptor.encryptAndAuthenticate p enc capacity plaintext sequenceNumber =
      .returns out) :
    0 < plaintext.length ∧ plaintext.length ≤ aesMaxPacketOct ∧
      sequenceNumber ≠ 0xFFFFFFFFFFFFFFFF ∧ plaintext.length + truncDigestSize ≤ capacity := by
  unfold DatagramEncryptor.encryptAndAuthenticate at h
  cases hencrypt : enc.aesCtr.encrypt p.host p.cipher plaintext sequenceNumber with
  | error e => simp [hencrypt] at h
  | ok ciphertext =>
    obtain ⟨hpos, hmax, hseq⟩ := (AesCounter.encrypt_ok_iff p.host p.cipher enc.aesCtr plaintext
      sequenceNumber).mp ⟨ciphertext, hencrypt⟩
    simp only [hencrypt] at h
    split at h
    · cases h
    · exact ⟨hpos, hmax, hseq, by omega⟩

/-- A ciphertext with its digest is verified and decrypted. -/
theorem decryptAndVerifyMac_append (p : Platform) (dec : DatagramDecryptor) {capacity : ℕ}
    {ciphertext plaintext : Bytes} {sequenceNumber : UInt64} (hpos : 0 < ciphertext.length)
    (hcapacity : ciphertext.length + 8 ≤ capacity)
    (hdecrypt : dec.aesCtr.encrypt p.host p.cipher ciphertext sequenceNumber = .ok plaintext) :
    DatagramDecryptor.decryptAndVerifyMac p dec capacity
      (ciphertext ++ dec.truncDigest p ciphertext sequenceNumber) sequenceNumber =
      .returns plaintext := by
  have hlength : (ciphertext ++ dec.truncDigest p ciphertext sequenceNumber).length =
      ciphertext.length + truncDigestSize := by
    rw [List.length_append, DatagramCipher.length_truncDigest]
  unfold DatagramDecryptor.decryptAndVerifyMac
  rw [hlength, if_neg (by omega)]
  simp only [Nat.add_sub_cancel, List.take_left, List.drop_left]
  rw [if_neg (by omega), if_neg (not_not.mpr rfl), hdecrypt]

/-- A call that writes behind its buffer has had a text that is accepted, and no room. -/
theorem encryptAndAuthenticate_fault {p : Platform} {enc : DatagramEncryptor} {capacity : ℕ}
    {plaintext : Bytes} {sequenceNumber : UInt64}
    (h : DatagramEncryptor.encryptAndAuthenticate p enc capacity plaintext sequenceNumber =
      .fault) :
    plaintext.length ≤ aesMaxPacketOct ∧ capacity < plaintext.length + truncDigestSize := by
  unfold DatagramEncryptor.encryptAndAuthenticate at h
  cases hencrypt : enc.aesCtr.encrypt p.host p.cipher plaintext sequenceNumber with
  | error e => simp [hencrypt] at h
  | ok ciphertext =>
    obtain ⟨-, hmax, -⟩ := (AesCounter.encrypt_ok_iff p.host p.cipher enc.aesCtr plaintext
      sequenceNumber).mp ⟨ciphertext, hencrypt⟩
    simp only [hencrypt] at h
    split_ifs at h with hroom
    exact ⟨hmax, hroom⟩

/-- The decryptor leaves its buffer only for a datagram that is too long for it. -/
theorem decryptAndVerifyMac_fault {p : Platform} {dec : DatagramDecryptor} {capacity : ℕ}
    {dataIn : Bytes} {sequenceNumber : UInt64}
    (h : DatagramDecryptor.decryptAndVerifyMac p dec capacity dataIn sequenceNumber = .fault) :
    capacity < dataIn.length - truncDigestSize + 8 := by
  unfold DatagramDecryptor.decryptAndVerifyMac at h
  by_cases hshort : dataIn.length ≤ truncDigestSize
  · simp [hshort] at h
  by_cases hroom : capacity < dataIn.length - truncDigestSize + 8
  · exact hroom
  simp only [hshort, hroom, if_false] at h
  split_ifs at h
  split at h <;> cases h

/-- What is returned is the decryption of a ciphertext that the buffer has room for and
whose digest is correct for the expected sequence number. -/
theorem decryptAndVerifyMac_eq_returns {p : Platform} {dec : DatagramDecryptor} {capacity : ℕ}
    {dataIn plaintext : Bytes} {sequenceNumber : UInt64} :
    DatagramDecryptor.decryptAndVerifyMac p dec capacity dataIn sequenceNumber =
        .returns plaintext ↔
      ∃ ciphertext : Bytes, 0 < ciphertext.length ∧ ciphertext.length + 8 ≤ capacity ∧
        dataIn = ciphertext ++ dec.truncDigest p ciphertext sequenceNumber ∧
        dec.aesCtr.encrypt p.host p.cipher ciphertext sequenceNumber = .ok plaintext := by
  constructor
  · intro h
    unfold DatagramDecryptor.decryptAndVerifyMac at h
    split at h
    · cases h
    · rename_i hlong
      dsimp only at h
      split at h
      · cases h
      · rename_i hroom
        split at h
        · cases h
        · rename_i hmac
          have hlength : (dataIn.take (dataIn.length - truncDigestSize)).length =
              dataIn.length - truncDigestSize := by
            rw [List.length_take]
            omega
          refine ⟨dataIn.take (dataIn.length - truncDigestSize), by omega, by omega, ?_, ?_⟩
          · rw [not_not.mp hmac, List.take_append_drop]
          · split at h
            · cases h
            · rename_i hdecrypt
              cases h
              exact hdecrypt
  · rintro ⟨ciphertext, hpos, hcapacity, rfl, hdecrypt⟩
    exact decryptAndVerifyMac_append p dec hpos hcapacity hdecrypt

end San2.DragonSRP
